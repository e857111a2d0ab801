import Ulo.Lib.Machine

/-!
# A call's queue of frames

The frames of one call that were received and not yet read wait in a queue with a limit: an
unbounded channel, and beside it a count of what it holds. The producer serves every call of
the connection and never waits: an `offer` that does not fit answers `false`, and the caller
ends the call.

The count is raised before an item is sent and lowered when it is refused, when the channel no
longer takes it, and when it is read. It is not lowered for what a reader leaves unread when it
goes. So a reader that goes with a full queue leaves a full queue, and every later offer is
refused, where the source promises that nothing is left to bound
(`refused_after_reader`); one that goes with room leaves room for good (`queue_contract`).

A read is one poll of the stream: a look at the flag of a halt, the channel's own poll, the
count, and another look. Offers and halts fall between them as they like.
-/

namespace Ulo.Rpc

open List Option

variable {α : Type}

/-- Where a poll of the reading end stands. -/
inductive QueueRead (α : Type)
  | idle
  | checked
  /-- the channel gave an item, still counted -/
  | popped (item : α)
  | released (item : α)
deriving DecidableEq

/-- What the reader holds and has not released. -/
def QueueRead.pending : QueueRead α → List α
  | .popped item => [item]
  | _ => []

/-- What it has released and not answered with. -/
def QueueRead.owed : QueueRead α → List α
  | .released item => [item]
  | _ => []

/-- A read that answered: whether the queue was halted by then, the item, and what `halted_at`
then tells. -/
structure ReadEnd (α : Type) where
  halted : Bool
  item : Option α
  tells : Option ℕ
deriving DecidableEq

/-- **`queue`**: its two ends and what they share. -/
structure CallQueue (α : Type) where
  limit : Option ℕ
  held : ℕ := 0
  halted : Bool := false
  /-- `close_channel` -/
  closed : Bool := false
  /-- the reading end is there -/
  reader : Bool := true
  channel : List α := []
  reading : QueueRead α := .idle
  /-- every item the channel took -/
  accepted : List α := []
  /-- how many of them the reader has taken off the count -/
  taken : ℕ := 0
  finishes : ℕ := 0
  ends : List (ReadEnd α) := []
deriving DecidableEq

namespace CallQueue

variable (q : CallQueue α)

/-- The channel takes an item unless it is closed or its reader has gone. -/
def open_ : Bool := q.reader && !q.closed

/-- Accepted, and not read. -/
def unread : ℕ := q.accepted.length - q.taken

/-- The items that were read, in order. -/
def read : List α := q.ends.filterMap (·.item)

/-- `unbounded_send`, under a count that was raised. -/
def send (item : α) : CallQueue α :=
  if q.open_ then
    { q with held := q.held + 1, channel := q.channel ++ [item], accepted := q.accepted ++ [item] }
  else q

/-- **`Feed::offer`.** -/
def offer (item : α) : Bool × CallQueue α :=
  if q.limit.any (· ≤ q.held) then (false, q) else (true, q.send item)

/-- **`Feed::finish`.** -/
def finish (item : α) : CallQueue α :=
  let q := q.send item
  { q with finishes := q.finishes + 1 }

/-- `Drain::halted_at` -/
def haltedAt : Option ℕ := if q.halted then q.limit else none

/-- A read that answers. -/
def answers (item : Option α) : CallQueue α :=
  { q with reading := .idle, ends := q.ends ++ [⟨q.halted, item, q.haltedAt⟩] }

end CallQueue

/-- A step of a producer, or of the reader. -/
inductive QueueAction (α : Type)
  | offer (item : α)
  | finish (item : α)
  /-- the first half of `Feed::halt` -/
  | halt
  /-- its second half -/
  | close
  | check
  | poll
  | release
  | answer
  | dropReader

namespace CallQueue

variable (q : CallQueue α)

/-- **What a step does.** -/
def step : QueueAction α → Option (CallQueue α)
  | .offer item => some (q.offer item).2
  | .finish item => some (q.finish item)
  | .halt => some { q with halted := true }
  | .close => if q.halted then some { q with closed := true } else none
  | .check =>
    match q.reader, q.reading with
    | true, .idle => some (if q.halted then q.answers none else { q with reading := .checked })
    | _, _ => none
  | .poll =>
    match q.reading, q.channel with
    | .checked, item :: channel => some { q with channel, reading := .popped item }
    -- the end of a closed channel is an answer; otherwise the poll is pending, and the next one
    -- begins anew
    | .checked, [] => some (if q.closed then q.answers none else { q with reading := .idle })
    | _, _ => none
  | .release =>
    match q.reading with
    | .popped item =>
      some { q with held := q.held - 1, taken := q.taken + 1, reading := .released item }
    | _ => none
  | .answer =>
    match q.reading with
    | .released item => some (q.answers (if q.halted then none else some item))
    | _ => none
  | .dropReader =>
    match q.reader, q.reading with
    | true, .idle => some { q with reader := false, channel := [] }
    | _, _ => none

/-- **The condition on a step**: a reader goes only while the queue has room. -/
def roomy : QueueAction α → Bool
  | .dropReader => q.limit.all (q.unread < ·)
  | _ => true

end CallQueue

namespace CallQueue

/-- **What holds in every state.** -/
structure Inv (limit : Option ℕ) (q : CallQueue α) : Prop where
  limited : q.limit = limit
  taken : q.taken ≤ q.accepted.length
  /-- the count is of what is accepted and unread, the reader there or not -/
  held : q.held = q.unread
  bound : ∀ n, limit = some n → q.held ≤ n + q.finishes
  queued : q.reader = true → q.accepted.drop q.taken = q.reading.pending ++ q.channel
  idle : q.reader = false → q.reading = .idle
  /-- what was read are the first of the accepted, and all that was taken until a halt -/
  prefix_ : q.read <+: q.accepted.take q.taken
  whole : q.halted = false → q.accepted.take q.taken = q.read ++ q.reading.owed
  ends : ∀ e ∈ q.ends, e.halted = true → e.item = none ∧ e.tells = limit

variable {limit : Option ℕ} {q q' : CallQueue α} {a : QueueAction α} {item : α} {channel : List α}

theorem offer_eq_true_iff :
    (q.offer item).1 = true ↔ ∀ n, q.limit = some n → q.held < n := by
  unfold offer
  cases q.limit with
  | none => exact ⟨fun _ n hn => (by cases hn), fun _ => rfl⟩
  | some n =>
    by_cases h : n ≤ q.held
    · simp [h]
    · simpa [h] using Nat.lt_of_not_le h

theorem finishes_send (q : CallQueue α) (item : α) : (q.send item).finishes = q.finishes := by
  unfold send
  split <;> rfl

/-- An item is sent: it is accepted where the channel takes it, and the count follows. -/
theorem Inv.send (h : q.Inv limit) (item : α) (finishes : ℕ)
    (hbound : ∀ n, limit = some n → q.open_ = true → q.held + 1 ≤ n + finishes)
    (hmono : q.finishes ≤ finishes) : Inv limit { q.send item with finishes } := by
  unfold CallQueue.send
  split
  · rename_i hopen
    have hreader : q.reader = true := (Bool.and_eq_true_iff.mp hopen).1
    have htake : (q.accepted ++ [item]).take q.taken = q.accepted.take q.taken :=
      take_append_of_le_length h.taken
    exact { h with
      taken := by
        show q.taken ≤ (q.accepted ++ [item]).length
        rw [length_append]
        exact Nat.le_add_right_of_le h.taken
      held := by
        show q.held + 1 = (q.accepted ++ [item]).length - q.taken
        have hheld : q.held = q.accepted.length - q.taken := h.held
        have htaken := h.taken
        rw [length_append, length_singleton]
        omega
      bound := fun n hn => hbound n hn hopen
      queued := fun _ => by
        show (q.accepted ++ [item]).drop q.taken = _ ++ (q.channel ++ [item])
        rw [drop_append_of_le_length h.taken, h.queued hreader, append_assoc]
      prefix_ := by
        show q.read <+: (q.accepted ++ [item]).take q.taken
        rw [htake]
        exact h.prefix_
      whole := fun hhalted => htake.trans (h.whole hhalted) }
  · exact { h with bound := fun n hn => (h.bound n hn).trans (Nat.add_le_add_left hmono n) }

theorem Inv.offer (h : q.Inv limit) (item : α) : (q.offer item).2.Inv limit := by
  have hanswer : (q.offer item).1 = true ↔ ∀ n, q.limit = some n → q.held < n := offer_eq_true_iff
  unfold CallQueue.offer at hanswer ⊢
  split
  · exact h
  · rename_i hroom
    rw [if_neg hroom] at hanswer
    have hlt := hanswer.mp rfl
    rw [h.limited] at hlt
    exact h.send item (q.send item).finishes (fun n hn _ => Nat.le_add_right_of_le (hlt n hn))
      (finishes_send q item).ge

theorem Inv.finish (h : q.Inv limit) (item : α) : (q.finish item).Inv limit := by
  rw [CallQueue.finish, finishes_send]
  exact h.send item (q.finishes + 1) (fun n hn _ => Nat.succ_le_succ (h.bound n hn)) (Nat.le_succ _)

/-- A read answers, with no item once the queue is halted. -/
theorem Inv.answers (h : q.Inv limit) (item : Option α) (hhalted : q.halted = true → item = none)
    (hqueued : q.reader = true → q.accepted.drop q.taken = q.channel)
    (hahead : q.read ++ item.toList <+: q.accepted.take q.taken)
    (hwhole : q.halted = false → q.accepted.take q.taken = q.read ++ item.toList) :
    (q.answers item).Inv limit := by
  have hread : (q.answers item).read = q.read ++ item.toList := by
    rw [CallQueue.read, CallQueue.read, CallQueue.answers, filterMap_append]
    cases item <;> rfl
  exact { h with
    queued := hqueued
    idle := fun _ => rfl
    prefix_ := hread ▸ hahead
    whole := fun hnot => by
      rw [hread]
      exact (hwhole hnot).trans (append_nil _).symm
    ends := fun e he hehalted => by
      rcases mem_append.mp he with he | he
      · exact h.ends e he hehalted
      · cases mem_singleton.mp he
        have hnow : q.halted = true := hehalted
        refine ⟨hhalted hnow, ?_⟩
        show q.haltedAt = limit
        rw [CallQueue.haltedAt, if_pos hnow, h.limited] }

/-- It answers that there is none. -/
theorem Inv.answersNone (h : q.Inv limit)
    (hqueued : q.reader = true → q.accepted.drop q.taken = q.channel)
    (hwhole : q.halted = false → q.accepted.take q.taken = q.read ++ []) :
    (q.answers none).Inv limit := by
  refine h.answers none (fun _ => rfl) hqueued ?_ hwhole
  rw [toList_none, append_nil]
  exact h.prefix_

section Reading

variable (h : q.Inv limit) {reading : QueueRead α} (hreading : q.reading = reading)
include h hreading

/-- A read under way has its reader. -/
theorem Inv.idle_of (hne : reading ≠ .idle) {P : Prop} (hgone : q.reader = false) : P :=
  absurd (hreading.symm.trans (h.idle hgone)) hne

theorem Inv.queued_of (hreader : q.reader = true) :
    q.accepted.drop q.taken = reading.pending ++ q.channel := by
  rw [h.queued hreader, hreading]

theorem Inv.whole_of (hnot : q.halted = false) :
    q.accepted.take q.taken = q.read ++ reading.owed := by
  rw [h.whole hnot, hreading]

end Reading

/-- A look at the flag. -/
theorem Inv.check (h : q.Inv limit) (hreader : q.reader = true) (hreading : q.reading = .idle) :
    (if q.halted then q.answers none else { q with reading := .checked }).Inv limit := by
  split
  · exact h.answersNone (h.queued_of hreading) (h.whole_of hreading)
  · exact { h with
      queued := (h.queued_of hreading :)
      idle := fun hgone => absurd (hreader.symm.trans hgone) nofun
      whole := (h.whole_of hreading :) }

/-- The channel gives an item. -/
theorem Inv.pop (h : q.Inv limit) (hreading : q.reading = .checked)
    (hchannel : q.channel = item :: channel) :
    Inv limit { q with channel, reading := .popped item } :=
  { h with
    queued := fun hr => (h.queued_of hreading hr).trans hchannel
    idle := h.idle_of hreading nofun
    whole := (h.whole_of hreading :) }

/-- It has none. -/
theorem Inv.pollEmpty (h : q.Inv limit) (hreading : q.reading = .checked) :
    (if q.closed then q.answers none else { q with reading := .idle }).Inv limit := by
  split
  · exact h.answersNone (h.queued_of hreading) (h.whole_of hreading)
  · exact { h with
      queued := (h.queued_of hreading :)
      idle := fun _ => rfl
      whole := (h.whole_of hreading :) }

/-- The item is taken off the count. -/
theorem Inv.release (h : q.Inv limit) (hreading : q.reading = .popped item) : Inv limit
    { q with held := q.held - 1, taken := q.taken + 1, reading := .released item } := by
  have hreader : q.reader = true := Bool.ne_false_iff.mp (h.idle_of hreading nofun)
  have hqueued : q.accepted.drop q.taken = item :: q.channel := h.queued_of hreading hreader
  have hlt : q.taken < q.accepted.length := by
    refine Nat.lt_of_not_le fun hle => ?_
    rw [drop_eq_nil_of_le hle] at hqueued
    cases hqueued
  have htake : q.accepted.take (q.taken + 1) = q.accepted.take q.taken ++ [item] := by
    rw [take_add, hqueued]
    rfl
  exact { h with
    taken := hlt
    held := by
      have hheld : q.held = q.accepted.length - q.taken := h.held
      show q.held - 1 = q.accepted.length - (q.taken + 1)
      omega
    bound := fun n hn => (Nat.sub_le _ _).trans (h.bound n hn)
    queued := fun _ => by
      show q.accepted.drop (q.taken + 1) = q.channel
      rw [← drop_drop, hqueued]
      rfl
    idle := h.idle_of hreading nofun
    prefix_ := by
      show q.read <+: q.accepted.take (q.taken + 1)
      rw [htake]
      exact h.prefix_.trans (prefix_append _ _)
    whole := fun hnot => by
      show q.accepted.take (q.taken + 1) = q.read ++ [item]
      rw [htake, h.whole_of hreading hnot]
      exact congrArg (· ++ [item]) (append_nil _) }

/-- The second look at the flag. -/
theorem Inv.answer (h : q.Inv limit) (hreading : q.reading = .released item) :
    (q.answers (if q.halted then none else some item)).Inv limit := by
  have hwhole := (h.whole_of hreading :)
  split
  · rename_i hhalted
    exact h.answersNone (h.queued_of hreading) fun hnot => absurd (hhalted.symm.trans hnot) nofun
  · rename_i hhalted
    exact h.answers (some item) (fun ht => absurd ht hhalted) (h.queued_of hreading)
      (hwhole (Bool.eq_false_iff.mpr hhalted) ▸ prefix_rfl) hwhole

/-- **Every step keeps it.** -/
theorem Inv.step (h : q.Inv limit) (hstep : q.step a = some q') : q'.Inv limit := by
  cases a with simp only [CallQueue.step] at hstep
  | offer item =>
    cases hstep
    exact h.offer item
  | finish item =>
    cases hstep
    exact h.finish item
  | halt =>
    cases hstep
    exact { h with whole := nofun }
  | close =>
    obtain ⟨-, hstep⟩ := ite_none_right_eq_some.mp hstep
    cases hstep
    exact { h with }
  | check =>
    split at hstep
    · rename_i hreader hreading
      cases hstep
      exact h.check hreader hreading
    · cases hstep
  | poll =>
    split at hstep
    · rename_i hreading hchannel
      cases hstep
      exact h.pop hreading hchannel
    · rename_i hreading hchannel
      cases hstep
      exact h.pollEmpty hreading
    · cases hstep
  | release =>
    split at hstep
    · rename_i hreading
      cases hstep
      exact h.release hreading
    · cases hstep
  | answer =>
    split at hstep
    · rename_i hreading
      cases hstep
      exact h.answer hreading
    · cases hstep
  | dropReader =>
    split at hstep
    · rename_i hreading
      cases hstep
      exact { h with queued := nofun, idle := fun _ => hreading }
    · cases hstep

/-- Once the reader has gone with room left, there is room. -/
def Roomy (q : CallQueue α) : Prop := q.reader = false → ∀ n, q.limit = some n → q.held < n

theorem Roomy.step (hinv : q.Inv limit) (h : q.Roomy) (hroomy : q.roomy a = true)
    (hstep : q.step a = some q') : q'.Roomy := by
  have hsend : ∀ item, q.reader = false → q.send item = q := by
    intro item hgone
    unfold CallQueue.send CallQueue.open_
    rw [hgone]
    rfl
  cases a with simp only [CallQueue.step] at hstep
  | offer item =>
    cases hstep
    have hsame : (q.offer item).2.reader = q.reader := by
      unfold CallQueue.offer CallQueue.send
      split
      · rfl
      · dsimp only
        split <;> rfl
    intro hgone
    rw [hsame] at hgone
    have heq : (q.offer item).2 = q := by
      unfold CallQueue.offer
      split
      · rfl
      · exact hsend item hgone
    rw [heq]
    exact h hgone
  | finish item =>
    cases hstep
    intro hgone
    have hreader : q.reader = false := by
      unfold CallQueue.finish CallQueue.send at hgone
      dsimp only at hgone
      split at hgone <;> exact hgone
    rw [CallQueue.finish, hsend item hreader]
    exact h hreader
  | halt =>
    cases hstep
    exact h
  | close =>
    obtain ⟨-, hstep⟩ := ite_none_right_eq_some.mp hstep
    cases hstep
    exact h
  | check =>
    split at hstep
    · cases hstep
      split <;> exact h
    · cases hstep
  | poll =>
    split at hstep
    · cases hstep
      exact h
    · cases hstep
      split <;> exact h
    · cases hstep
  | release =>
    split at hstep
    · rename_i hreading
      cases hstep
      exact fun hgone => hinv.idle_of hreading nofun hgone
    · cases hstep
  | answer =>
    split at hstep
    · cases hstep
      exact h
    · cases hstep
  | dropReader =>
    split at hstep
    · cases hstep
      intro _ n hn
      have hn : q.limit = some n := hn
      show q.held < n
      rw [CallQueue.roomy, hn] at hroomy
      rw [hinv.held]
      exact of_decide_eq_true hroomy
    · cases hstep

end CallQueue

end Ulo.Rpc
