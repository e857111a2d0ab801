import Ulo.Lifecycle.Drain

/-!
# The `cancel` of a message in flight

A client cancels a message by its id. The read loop finds the message's execution in
`Flight::calls`, a map from the keys of the executions in it to the ids of their
messages – and the map is filled by the messages' own tasks: `message` opens its
execution at its first poll, then registers it, and unregisters it as its last act.

Between the hand-off of a message and its registration the loop goes on reading, so a
`cancel` right behind the message, in one buffer of the socket, finds nothing to
cancel and is dropped (`unpolled_missed`). A `cancel` that finds every message of its
id registered reaches them all, and no other message (`cancel_reaches`).
-/

namespace Ulo.Ws

open List AList

/-- Where the task of a message stands: handed on, with its execution open, in the map
under its key, out of it again, and ended. -/
inductive ExecStage
  | unpolled
  | opened
  | registered (key : ℕ)
  | unregistered
  | ended
deriving DecidableEq

/-- **A message handed to its task**: its id, if it has one, and the reason its execution
was cancelled for. -/
structure InFlight (ι : Type) where
  id : Option ι
  stage : ExecStage := .unpolled
  reason : Option CancelReason := none

/-- `cancel_with`: the first reason stays. -/
def InFlight.cancelWith {ι : Type} (reason : CancelReason) (m : InFlight ι) : InFlight ι :=
  { m with reason := m.reason.or (some reason) }

/-- **What a connection's loop and its message tasks share of the calls**, with the
messages handed on so far. An entry has the id of its message and its place among
them. -/
structure Calls (ι : Type) where
  messages : List (InFlight ι) := []
  calls : AList fun _ : ℕ => Option ι × ℕ := ∅
  next : ℕ := 0

/-- A step of the loop or of a task. -/
inductive CallsAction (ι : Type)
  /-- a message is read and handed to its task -/
  | message (id : Option ι)
  /-- a `cancel` is read -/
  | cancel (id : ι)
  /-- the connection ends -/
  | disconnected
  /-- a task's first poll, with an execution or without -/
  | poll (k : ℕ) (opens : Bool)
  | register (k : ℕ)
  /-- an execution is cancelled by anybody else -/
  | stop (k : ℕ) (reason : CancelReason)
  | unregister (k : ℕ)
  | finish (k : ℕ)
  /-- a task is aborted, or panics: its entry stays -/
  | drop (k : ℕ)

namespace Calls

variable {ι : Type}

/-- The message at `k` changes, if it is at the stage it has to be. -/
def change (s : Calls ι) (k : ℕ) (f : InFlight ι → Option (InFlight ι)) : Option (Calls ι) :=
  (s.messages[k]?.bind f).map fun m => { s with messages := s.messages.set k m }

/-- **`cancel_with` on every execution in the map** whose id is asked for. -/
def cancelEach (s : Calls ι) (asked : Option ι → Bool) (reason : CancelReason) : Calls ι :=
  { s with
    messages := s.calls.entries.foldl (fun messages entry =>
      if asked entry.2.1 then messages.modify entry.2.2 (InFlight.cancelWith reason) else messages)
      s.messages }

/-- One step. -/
def step [DecidableEq ι] (s : Calls ι) : CallsAction ι → Option (Calls ι)
  | .message id => some { s with messages := s.messages ++ [{ id }] }
  | .cancel id => some (s.cancelEach (· = some id) .clientCancelled)
  | .disconnected => some (s.cancelEach (fun _ => true) .disconnected)
  | .poll k opens =>
    s.change k fun m =>
      if m.stage = .unpolled then some { m with stage := if opens then .opened else .ended }
      else none
  | .register k =>
    match s.messages[k]? with
    | some m =>
      if m.stage = .opened then
        some
          { messages := s.messages.set k { m with stage := .registered s.next }
            calls := s.calls.insert s.next (m.id, k)
            next := s.next + 1 }
      else none
    | none => none
  | .stop k reason =>
    s.change k fun m =>
      match m.stage with
      | .opened | .registered _ | .unregistered => some (m.cancelWith reason)
      | _ => none
  | .unregister k =>
    match s.messages[k]? with
    | some m =>
      match m.stage with
      | .registered key =>
        some { s with
          messages := s.messages.set k { m with stage := .unregistered }
          calls := s.calls.erase key }
      | _ => none
    | none => none
  | .finish k =>
    s.change k fun m => if m.stage = .unregistered then some { m with stage := .ended } else none
  | .drop k =>
    s.change k fun m => if m.stage = .ended then none else some { m with stage := .ended }

end Calls

/-- **The calls' machine.** -/
def callsMachine (ι : Type) [DecidableEq ι] : Machine (Calls ι) (CallsAction ι) where
  init := {}
  step := Calls.step

namespace Calls

variable {ι : Type} {s s' : Calls ι} {a : CallsAction ι} {k : ℕ} {m : InFlight ι}

/-! ## What `cancel` reaches -/

@[simp]
theorem cancelWith_cancelWith (reason : CancelReason) (m : InFlight ι) :
    (m.cancelWith reason).cancelWith reason = m.cancelWith reason := by
  obtain ⟨id, stage, reason₀⟩ := m
  cases reason₀ <;> rfl

/-- **One pass over the map** cancels the messages of the entries asked for. -/
theorem getElem?_foldl_cancel (asked : Option ι → Bool) (reason : CancelReason) (k : ℕ)
    (entries : List (Sigma fun _ : ℕ => Option ι × ℕ)) (messages : List (InFlight ι)) :
    (entries.foldl (fun messages entry =>
      if asked entry.2.1 then messages.modify entry.2.2 (InFlight.cancelWith reason) else messages)
      messages)[k]? =
    if entries.any (fun entry => asked entry.2.1 && entry.2.2 = k) then
      messages[k]?.map (InFlight.cancelWith reason) else messages[k]? := by
  induction entries generalizing messages with
  | nil => rfl
  | cons entry entries ih =>
    rw [foldl_cons, ih, any_cons]
    by_cases hasked : asked entry.2.1 = true
    · by_cases hk : entry.2.2 = k
      · subst hk
        simp only [hasked, if_true, getElem?_modify_eq, Bool.true_and, decide_true, Bool.true_or,
          Option.map_eq_map, Option.map_map]
        split
        · exact congrArg (messages[entry.2.2]?.map ·) (funext (cancelWith_cancelWith reason))
        · rfl
      · simp only [hasked, if_true, getElem?_modify_ne _ _ hk, decide_eq_false hk, Bool.and_false,
          Bool.false_or]
    · simp only [hasked, Bool.false_and, Bool.false_or, Bool.false_eq_true, if_false]

/-- **The map names the messages**: a registered execution is in it, an entry has the id
of its message, and the keys are behind `next`. -/
structure Inv (s : Calls ι) : Prop where
  registered : ∀ (k : ℕ) (m : InFlight ι) (key : ℕ), s.messages[k]? = some m →
    m.stage = .registered key → s.calls.lookup key = some (m.id, k)
  entries : ∀ (key : ℕ) (id : Option ι) (k : ℕ), s.calls.lookup key = some (id, k) →
    ∃ m, s.messages[k]? = some m ∧ m.id = id
  next : ∀ key ∈ s.calls, key < s.next

/-- Messages that keep their ids, with none registered anew, fit the same map. -/
theorem Inv.frame (h : s.Inv) (hcalls : s'.calls = s.calls) (hnext : s'.next = s.next)
    (hback : ∀ (k : ℕ) (m' : InFlight ι), s'.messages[k]? = some m' →
      (∃ m, s.messages[k]? = some m ∧ m'.id = m.id ∧ (∀ key, m'.stage = .registered key →
        m.stage = .registered key)) ∨ ∀ key, m'.stage ≠ .registered key)
    (hforth : ∀ (k : ℕ) (m : InFlight ι), s.messages[k]? = some m →
      ∃ m', s'.messages[k]? = some m' ∧ m'.id = m.id) : s'.Inv where
  registered := fun k m' key hm' hstage => by
    rcases hback k m' hm' with ⟨m, hm, hid, hkeeps⟩ | hnot
    · rw [hcalls, hid]
      exact h.registered k m key hm (hkeeps key hstage)
    · exact absurd hstage (hnot key)
  entries := fun key id k hentry => by
    obtain ⟨m, hm, rfl⟩ := h.entries key id k (hcalls ▸ hentry)
    exact hforth k m hm
  next := fun key hkey => hnext ▸ h.next key (hcalls ▸ hkey)

theorem change_eq_some {f : InFlight ι → Option (InFlight ι)} :
    s.change k f = some s' ↔ ∃ m m', s.messages[k]? = some m ∧ f m = some m' ∧
      { s with messages := s.messages.set k m' } = s' := by
  simp only [change, Option.map_eq_some_iff, Option.bind_eq_some_iff]
  constructor
  · rintro ⟨m', ⟨m, hm, hf⟩, rfl⟩
    exact ⟨m, m', hm, hf, rfl⟩
  · rintro ⟨m, m', hm, hf, rfl⟩
    exact ⟨m', ⟨m, hm, hf⟩, rfl⟩

/-- A message that keeps its id is found by it. -/
theorem ids_set {m' : InFlight ι} {i : ℕ} {id : Option ι} (hm : s.messages[k]? = some m)
    (hid : m'.id = m.id) (h : ∃ x, s.messages[i]? = some x ∧ x.id = id) :
    ∃ x, (s.messages.set k m')[i]? = some x ∧ x.id = id :=
  exists_getElem?_set h fun _ hx hxid => by
    cases hm.symm.trans hx
    exact hid.trans hxid

/-- **One message changes**, and is registered only if it was. -/
theorem Inv.change {m' : InFlight ι} (h : s.Inv) (hm : s.messages[k]? = some m) (hid : m'.id = m.id)
    (hstage : ∀ key, m'.stage = .registered key → m.stage = .registered key) :
    Inv { s with messages := s.messages.set k m' } := by
  refine h.frame rfl rfl (fun i x hx => .inl ?_) fun i x hx => ids_set hm hid ⟨x, hx, rfl⟩
  rcases eq_or_of_getElem?_set hx with ⟨rfl, rfl⟩ | ⟨-, hx⟩
  · exact ⟨m, hm, hid, hstage⟩
  · exact ⟨x, hx, rfl, fun _ => id⟩

/-- What a pass over the map does to a message. -/
theorem getElem?_cancelEach (s : Calls ι) (asked : Option ι → Bool) (reason : CancelReason)
    (k : ℕ) : (s.cancelEach asked reason).messages[k]? =
      if s.calls.entries.any (fun entry => asked entry.2.1 && entry.2.2 = k) then
        s.messages[k]?.map (InFlight.cancelWith reason) else s.messages[k]? :=
  getElem?_foldl_cancel asked reason k _ _

theorem Inv.cancelEach (h : s.Inv) (asked : Option ι → Bool) (reason : CancelReason) :
    (s.cancelEach asked reason).Inv := by
  refine h.frame rfl rfl (fun k m' hm' => .inl ?_) fun k m hm => ?_
  · rw [getElem?_cancelEach] at hm'
    split at hm'
    · obtain ⟨m, hm, rfl⟩ := Option.map_eq_some_iff.mp hm'
      exact ⟨m, hm, rfl, fun _ => id⟩
    · exact ⟨m', hm', rfl, fun _ => id⟩
  · rw [getElem?_cancelEach, hm]
    split
    · exact ⟨_, rfl, rfl⟩
    · exact ⟨m, rfl, rfl⟩

/-- **An execution is registered**, under a key of its own. -/
theorem Inv.register (h : s.Inv) (hm : s.messages[k]? = some m) :
    Inv { messages := s.messages.set k { m with stage := .registered s.next }
          calls := s.calls.insert s.next (m.id, k)
          next := s.next + 1 } := by
  have hnew : ∀ key id i, s.calls.lookup key = some (id, i) → key ≠ s.next := fun key id i hentry =>
    Nat.ne_of_lt (h.next key (lookup_isSome.mp (by rw [hentry]; rfl)))
  refine ⟨fun i x key hx hstage => ?_, fun key id i hentry => ?_, fun key hkey => ?_⟩
  · rcases eq_or_of_getElem?_set hx with ⟨rfl, rfl⟩ | ⟨-, hx⟩
    · cases hstage
      exact lookup_insert _
    · have hentry := h.registered i x key hx hstage
      show (s.calls.insert s.next (m.id, k)).lookup key = _
      rw [lookup_insert_ne (hnew key x.id i hentry), hentry]
  · refine ids_set hm rfl ?_
    by_cases hkey : key = s.next
    · subst hkey
      cases (lookup_insert s.calls).symm.trans hentry
      exact ⟨m, hm, rfl⟩
    · exact h.entries key id i ((lookup_insert_ne hkey).symm.trans hentry)
  · rcases (mem_insert s.calls).mp hkey with rfl | hkey
    · exact Nat.lt_succ_self _
    · exact Nat.lt_succ_of_lt (h.next key hkey)

/-- **An execution leaves the map**, and no other with it. -/
theorem Inv.unregister {key : ℕ} (h : s.Inv) (hm : s.messages[k]? = some m)
    (hstage : m.stage = .registered key) :
    Inv { s with
      messages := s.messages.set k { m with stage := .unregistered }
      calls := s.calls.erase key } := by
  have hown := h.registered k m key hm hstage
  refine ⟨fun i x key' hx hstage' => ?_, fun key' id i hentry => ?_, fun key' hkey' => ?_⟩
  · rcases eq_or_of_getElem?_set hx with ⟨rfl, rfl⟩ | ⟨hik, hx⟩
    · cases hstage'
    · have hentry := h.registered i x key' hx hstage'
      have hne : key' ≠ key := by
        rintro rfl
        exact hik.symm (congrArg Prod.snd (Option.some.inj (hown.symm.trans hentry)))
      exact (lookup_erase_ne hne).trans hentry
  · have hne : key' ≠ key := by
      rintro rfl
      cases (lookup_erase key' s.calls).symm.trans hentry
    exact ids_set hm rfl (h.entries key' id i ((lookup_erase_ne hne).symm.trans hentry))
  · exact h.next key' (mem_erase.mp hkey').2

/-- A message registered under an id asked for is cancelled. -/
theorem Inv.reached {key : ℕ} (h : s.Inv) {asked : Option ι → Bool} {reason : CancelReason}
    (hm : s.messages[k]? = some m) (hstage : m.stage = .registered key)
    (hasked : asked m.id = true) :
    (s.cancelEach asked reason).messages[k]? = some (m.cancelWith reason) := by
  have hentry : (⟨key, (m.id, k)⟩ : Sigma fun _ : ℕ => Option ι × ℕ) ∈ s.calls.entries :=
    mem_lookup_iff.mp (h.registered k m key hm hstage)
  have hany : s.calls.entries.any (fun entry => asked entry.2.1 && entry.2.2 = k) = true :=
    any_eq_true.mpr ⟨_, hentry, by simp [hasked]⟩
  rw [getElem?_cancelEach, if_pos hany, hm]
  rfl

/-- A message of another id is left alone. -/
theorem Inv.untouched (h : s.Inv) {asked : Option ι → Bool} {reason : CancelReason}
    (hm : s.messages[k]? = some m) (hasked : asked m.id = false) :
    (s.cancelEach asked reason).messages[k]? = some m := by
  have hnone : s.calls.entries.any (fun entry => asked entry.2.1 && entry.2.2 = k) = false := by
    rw [any_eq_false]
    rintro ⟨key, id, k'⟩ hentry hfound
    simp only [Bool.and_eq_true, decide_eq_true_eq] at hfound
    obtain ⟨hid, rfl⟩ := hfound
    obtain ⟨m', hm', rfl⟩ := h.entries key id k' (mem_lookup_iff.mpr hentry)
    cases hm.symm.trans hm'
    cases hasked.symm.trans hid
  rw [getElem?_cancelEach, hnone, if_neg Bool.false_ne_true, hm]

theorem reason_cancelWith {r : CancelReason} (reason : CancelReason) (hreason : m.reason = some r) :
    (m.cancelWith reason).reason = some r := by
  rw [InFlight.cancelWith, hreason]
  rfl

variable [DecidableEq ι]

/-- **Every step keeps the map right.** -/
theorem Inv.step (h : s.Inv) (hstep : (callsMachine ι).step s a = some s') : s'.Inv := by
  have hstep : s.step a = some s' := hstep
  cases a with simp only [Calls.step] at hstep
  | message =>
    cases hstep
    refine h.frame rfl rfl (fun k m' hm' => ?_) fun k m hm => ?_
    · rcases getElem?_concat_eq_some.mp hm' with hm' | ⟨-, rfl⟩
      · exact .inl ⟨m', hm', rfl, fun _ => id⟩
      · exact .inr nofun
    · exact ⟨m, getElem?_concat_eq_some.mpr (.inl hm), rfl⟩
  | cancel | disconnected =>
    cases hstep
    exact h.cancelEach _ _
  | poll k opens =>
    obtain ⟨m, m', hm, hf, rfl⟩ := change_eq_some.mp hstep
    split at hf <;> cases hf
    exact h.change hm rfl fun key hstage => by cases opens <;> cases hstage
  | register =>
    split at hstep
    · split at hstep <;> cases hstep
      exact h.register ‹_›
    · cases hstep
  | stop =>
    obtain ⟨m, m', hm, hf, rfl⟩ := change_eq_some.mp hstep
    split at hf <;> cases hf <;> exact h.change hm rfl fun _ => id
  | unregister =>
    split at hstep
    · split at hstep <;> cases hstep
      exact h.unregister ‹_› ‹_›
    · cases hstep
  | finish | drop =>
    obtain ⟨m, m', hm, hf, rfl⟩ := change_eq_some.mp hstep
    split at hf <;> cases hf
    exact h.change hm rfl nofun

theorem Inv.init : (callsMachine ι).init.Inv where
  registered := nofun
  entries := nofun
  next := fun _ h => absurd h (notMem_empty _)

theorem inv {t : List (CallsAction ι)} (h : (callsMachine ι).run t = some s) : s.Inv :=
  (callsMachine ι).invariant Inv.init (fun _ _ _ hs hstep => hs.step hstep) h

/-! ## The `cancel` of a run -/

/-- **A reason stays**, whatever step is taken. -/
theorem reason_step {r : CancelReason} (h : ∃ m, s.messages[k]? = some m ∧ m.reason = some r)
    (hstep : (callsMachine ι).step s a = some s') :
    ∃ m, s'.messages[k]? = some m ∧ m.reason = some r := by
  have hstep : s.step a = some s' := hstep
  have hset : ∀ {i : ℕ} {x x' : InFlight ι}, s.messages[i]? = some x →
      (x.reason = some r → x'.reason = some r) →
      ∃ m, (s.messages.set i x')[k]? = some m ∧ m.reason = some r := fun hx hkeeps =>
    exists_getElem?_set h fun y hy hr => hkeeps (by cases hx.symm.trans hy; exact hr)
  obtain ⟨m, hm, hreason⟩ := h
  have heach : ∀ (asked : Option ι → Bool) (reason : CancelReason),
      ∃ m, (s.cancelEach asked reason).messages[k]? = some m ∧ m.reason = some r :=
    fun asked reason => by
      rw [getElem?_cancelEach, hm]
      split
      · exact ⟨_, rfl, reason_cancelWith reason hreason⟩
      · exact ⟨m, rfl, hreason⟩
  cases a with
  | message =>
    cases hstep
    exact ⟨m, getElem?_concat_eq_some.mpr (.inl hm), hreason⟩
  | cancel | disconnected =>
    cases hstep
    exact heach _ _
  | poll | finish | drop =>
    obtain ⟨x, x', hx, hf, rfl⟩ := change_eq_some.mp hstep
    split at hf <;> cases hf
    exact hset hx id
  | register | unregister =>
    simp only [Calls.step] at hstep
    split at hstep
    · rename_i hx
      split at hstep <;> cases hstep
      exact hset hx id
    · cases hstep
  | stop i reason =>
    obtain ⟨x, x', hx, hf, rfl⟩ := change_eq_some.mp hstep
    split at hf <;> cases hf <;> exact hset hx (reason_cancelWith reason)

/-- **A `cancel` finds what it is for**: every message of its id whose task has not ended
is in the map. -/
def finds (s : Calls ι) : CallsAction ι → Bool
  | .cancel id => s.messages.all fun m => m.id ≠ some id || match m.stage with
    | .registered _ | .ended => true
    | _ => false
  | _ => true

theorem registered_of_finds {i : ι} (h : s.finds (.cancel i) = true) (hm : s.messages[k]? = some m)
    (hid : m.id = some i) (hstage : m.stage ≠ .ended) : ∃ key, m.stage = .registered key := by
  have hfound := all_eq_true.mp h m (mem_of_getElem? hm)
  cases hreached : m.stage <;> simp_all

/-- **A `cancel` reaches every message read before it**, in a run whose `cancel`s find
what they are for: an execution of its id that had not ended is cancelled, and stays so,
with `ClientCancelled` unless another reason came first; and no execution of another id
is touched by it. -/
theorem cancel_reaches {t : List (CallsAction ι)} (h : (callsMachine ι).run t = some s)
    (hfinds : ∀ pre s₀ a, (callsMachine ι).TookAt t pre s₀ a → s₀.finds a = true)
    {pre : List (CallsAction ι)} {s₀ : Calls ι} {i : ι}
    (htook : (callsMachine ι).TookAt t pre s₀ (.cancel i)) {k : ℕ} {m : InFlight ι}
    (hm : s₀.messages[k]? = some m) :
    (m.id = some i → m.stage ≠ .ended → ∃ m', s.messages[k]? = some m' ∧
      m'.reason = some (m.reason.getD .clientCancelled)) ∧
    (m.id ≠ some i → ∀ s₁, s₀.step (.cancel i) = some s₁ → s₁.messages[k]? = some m) := by
  have hinv : s₀.Inv := inv htook.run
  refine ⟨fun hid hstage => ?_, fun hid s₁ hs₁ => ?_⟩
  · obtain ⟨key, hkey⟩ := registered_of_finds (hfinds _ _ _ htook) hm hid hstage
    refine htook.holds_after (P := fun s => ∃ m', s.messages[k]? = some m' ∧
      m'.reason = some (m.reason.getD .clientCancelled)) (fun s₁ hs₁ => ?_)
      (fun _ _ _ hs hstep => reason_step hs hstep) h
    cases hs₁
    refine ⟨_, hinv.reached hm hkey (by simp [hid]), ?_⟩
    show m.reason.or (some .clientCancelled) = _
    cases m.reason <;> rfl
  · cases hs₁
    exact hinv.untouched hm (by simpa using hid)

/-- A message is read, registered, and cancelled. -/
theorem cancel_reaches_registered : ∃ s m, (callsMachine ℕ).run
    [.message (some 7), .poll 0 true, .register 0, .cancel 7] = some s ∧
      s.messages[0]? = some m ∧ m.reason = some .clientCancelled := by
  have hrun : (callsMachine ℕ).run [.message (some 7), .poll 0 true, .register 0, .cancel 7] =
    some ⟨[⟨some 7, .registered 0, some .clientCancelled⟩], insert 0 (some 7, 0) ∅, 1⟩ := rfl
  have htook : (callsMachine ℕ).TookAt [.message (some 7), .poll 0 true, .register 0, .cancel 7]
    [.message (some 7), .poll 0 true, .register 0]
    ⟨[⟨some 7, .registered 0, none⟩], insert 0 (some 7, 0) ∅, 1⟩ (.cancel 7) :=
    ⟨prefix_rfl, rfl⟩
  obtain ⟨m, hm, hreason⟩ := (cancel_reaches hrun (fun _ _ _ htook => htook.of_checks rfl) htook
    (k := 0) rfl).1 rfl nofun
  exact ⟨_, m, hrun, hm, hreason⟩

/-- **The `cancel` right behind its message finds nothing**: the task has not been polled,
and its execution runs uncancelled. -/
theorem unpolled_missed : ∃ s m, (callsMachine ℕ).run
    [.message (some 7), .cancel 7, .poll 0 true, .register 0] = some s ∧
      s.messages[0]? = some m ∧ m.stage = .registered 0 ∧ m.reason = none :=
  ⟨_, _, rfl, rfl, rfl, rfl⟩

end Calls

end Ulo.Ws
