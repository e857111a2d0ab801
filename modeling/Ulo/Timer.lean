import Ulo.Lib.List

/-!
# Bounded waits

`timeout` races a future against an `Expiry`, a sleep on the clock of a `Timer` that the
clock's runtime may refuse once it has shut down. Ties go to the future, then to the bound
if the clock reads it as passed, and a refusal is answered one poll late.

A poll of the race is told what the sleep, the clock and the future would answer if they
were asked, and says what it asked of them. `race_ends` is about all polls of a race, up to
the one that answers.
-/

namespace Ulo

open List

/-- What ended a bounded wait before its work. -/
inductive Cut
  | expired
  | refused
deriving DecidableEq

/-- What a poll of a sleep answers. -/
inductive Slept
  | pending
  | done
  | refused
deriving DecidableEq

/-- **A poll's surroundings**: the answers it would have. -/
structure Surroundings (α : Type) where
  slept : Slept
  now : ℕ
  output : Option α

/-- What a poll does: it polls the sleep, reads the clock, polls the future or wakes itself. -/
inductive WaitEvent (α : Type)
  | sleep (answer : Slept)
  | now (reading : ℕ)
  | future (output : Option α)
  | wake

/-- What a poll can tell of its surroundings. -/
def Surroundings.Tells {α : Type} (x : Surroundings α) (event : WaitEvent α) : Prop :=
  event = .sleep x.slept ∨ event = .now x.now ∨ event = .future x.output ∨ event = .wake

/-- **A bound's end** on a clock: `until_` is none past the clock's range, and there is no
sleep for a bound that had passed when the `Expiry` was made. -/
structure Expiry where
  until_ : Option ℕ
  sleep : Bool
  refused : Bool := false

namespace Expiry

/-- `Expiry::at`, where the clock reads `now`. -/
def at_ (now until_ : ℕ) : Expiry := { until_ := some until_, sleep := until_ - now ≠ 0 }

/-- `Expiry::after`, on a clock with the given range. -/
def after (range now d : ℕ) : Expiry :=
  { until_ := if now + d ≤ range then some (now + d) else none, sleep := d ≠ 0 }

def passed (self : Expiry) (now : ℕ) : Bool := self.until_.any (· ≤ now)

def poll {α : Type} (self : Expiry) (x : Surroundings α) :
    Expiry × Option Cut × List (WaitEvent α) :=
  if self.refused then (self, some .refused, [])
  else if self.sleep then
    match x.slept with
    | .pending => (self, none, [.sleep .pending])
    | .done => (self, some .expired, [.sleep .done])
    | .refused =>
      let read := self.until_.toList.map fun _ => .now x.now
      if self.passed x.now then (self, some .expired, .sleep .refused :: read)
      else ({ self with refused := true }, none, .sleep .refused :: (read ++ [.wake]))
  else (self, some .expired, [])

end Expiry

/-! ## A poll of the bound -/

section

variable {α : Type}

/-- The second event is none that the first one rules out. -/
def Follows (e e' : WaitEvent α) : Prop :=
  (∀ answer, e = .sleep answer → answer ≠ .pending → ∀ answer', e' ≠ .sleep answer') ∧
    ∀ output, e = .future (some output) → ∀ output', e' ≠ .future output'

/-- The sleep was refused before the clock read the bound as passed. -/
def RefusedIn (until_ : Option ℕ) (log : List (WaitEvent α)) : Prop :=
  .sleep .refused ∈ log ∧ ∀ t, until_ = some t → ∃ n, .now n ∈ log ∧ n < t

/-- The sleep completed, or the clock read the bound as passed. -/
def ExpiredIn (until_ : Option ℕ) (log : List (WaitEvent α)) : Prop :=
  .sleep .done ∈ log ∨ ∃ t n, until_ = some t ∧ .now n ∈ log ∧ t ≤ n

/-- **What a poll does of a bound**, with what it answers the wait. -/
structure Expiry.Polled (e next : Expiry) (answer : Option (Except Cut α))
    (log : List (WaitEvent α)) : Prop where
  expired : answer = some (.error .expired) → ExpiredIn e.until_ log ∨ e.sleep = false
  refused : answer = some (.error .refused) → e.refused = true
  refuses : next.refused = true → e.refused = true ∨ RefusedIn e.until_ log
  stays : e.refused = true → next.refused = true
  armed : answer = none → .sleep .pending ∈ log ∨ .wake ∈ log
  silent : e.refused = true → ∀ answer, .sleep answer ∉ log
  settles : answer = none → ∀ a ≠ .pending, .sleep a ∈ log → next.refused = true
  ends : ExpiredIn e.until_ log ∨ e.sleep = false ∨ e.refused = true → answer ≠ none
  follows : log.Pairwise Follows
  until_ : next.until_ = e.until_
  sleep : next.sleep = e.sleep

theorem Expiry.poll_spec (e : Expiry) (x : Surroundings α) :
    e.Polled (e.poll x).1 ((e.poll x).2.1.map .error) (e.poll x).2.2 := by
  obtain ⟨until_, sleep, refused⟩ := e
  cases refused with
  | true => constructor <;> simp [Expiry.poll]
  | false =>
    cases sleep with
    | false => constructor <;> simp [Expiry.poll]
    | true =>
      cases hslept : x.slept with
      | pending | done => constructor <;> simp [Expiry.poll, hslept, ExpiredIn]
      | refused =>
        cases until_ with
        | none => constructor <;> simp [Expiry.poll, hslept, passed, RefusedIn, ExpiredIn, Follows]
        | some t =>
          by_cases hpassed : t ≤ x.now <;> constructor <;>
            simp [Expiry.poll, hslept, passed, hpassed, RefusedIn, ExpiredIn, Follows]; omega

theorem Expiry.poll_asks (e : Expiry) (x : Surroundings α) (output : Option α) :
    .future output ∉ (e.poll x).2.2 := by
  grind [Expiry.poll]

theorem Expiry.poll_tells (e : Expiry) (x : Surroundings α) :
    ∀ event ∈ (e.poll x).2.2, x.Tells event := by
  grind [Expiry.poll, Surroundings.Tells]

end

/-- **A race** under way. -/
structure Race where
  expiry : Expiry
  first : Bool := true
  early : Option Cut := none

namespace Race

variable {α : Type}

/-- A poll of `race`. The first one polls the bound before the future, and keeps its end. -/
def poll (self : Race) (x : Surroundings α) :
    Race × Option (Except Cut α) × List (WaitEvent α) :=
  let (expiry, cut, log) := if self.first then self.expiry.poll x else (self.expiry, none, [])
  let early := cut <|> self.early
  match x.output, early with
  | some output, _ => (⟨expiry, false, early⟩, some (.ok output), log ++ [.future (some output)])
  | none, some cut => (⟨expiry, false, early⟩, some (.error cut), log ++ [.future none])
  | none, none =>
    if self.first then (⟨expiry, false, none⟩, none, log ++ [.future none])
    else
      let (expiry, cut, log) := expiry.poll x
      (⟨expiry, false, none⟩, cut.map .error, .future none :: log)

/-- **The polls of a race** up to its answer: what each did, and the answer. -/
def drive (self : Race) : List (Surroundings α) → List (List (WaitEvent α)) × Option (Except Cut α)
  | [] => ([], none)
  | x :: xs =>
    match self.poll x with
    | (_, some answer, log) => ([log], some answer)
    | (next, none, log) => (log :: (next.drive xs).1, (next.drive xs).2)

/-- **What a poll of a race does.** -/
structure Polled (r : Race) (x : Surroundings α) (next : Race) (answer : Option (Except Cut α))
    (log : List (WaitEvent α)) : Prop extends r.expiry.Polled next.expiry answer log where
  asks : ∀ output, .future output ∈ log ↔ output = x.output
  tells : ∀ event ∈ log, x.Tells event
  value : ∀ v, answer = some (.ok v) ↔ x.output = some v
  kept : answer = none → next.early = none

/-- A poll that asks the bound and the future, in either order. -/
theorem Polled.of_expiry {e next : Expiry} {cut early : Option Cut} {log log' : List (WaitEvent α)}
    {x : Surroundings α} {first : Bool}
    (h : e.Polled next (cut.map .error : Option (Except Cut α)) log)
    (hasks : ∀ output, .future output ∉ log) (htells : ∀ event ∈ log, x.Tells event)
    (hlog : ∀ event, event ∈ log' ↔ event ∈ log ∨ event = .future x.output)
    (hfollows : log'.Pairwise Follows) (hearly : early = none ∨ early = cut) :
    Polled ⟨e, first, none⟩ x ⟨next, false, early⟩
      (x.output.elim (cut.map .error) fun v => some (.ok v)) log' := by
  -- an answer other than the future's is the bound's
  have hcut {o : Option (Except Cut α)} (ho : ∀ v, o ≠ some (.ok v))
      (heq : x.output.elim (cut.map .error) (fun v => some (.ok v)) = o) : cut.map .error = o := by
    cases hx : x.output with
    | none => rwa [hx] at heq
    | some v => exact absurd heq.symm (hx ▸ ho v)
  refine ⟨⟨fun ha => ?_, fun ha => h.refused (hcut nofun ha), fun hnext => ?_, h.stays,
    fun ha => ?_,
    fun hrefused a => ?_, fun ha a hne hmem => ?_, fun hend ha => ?_, hfollows, h.until_, h.sleep⟩,
    ?_, fun event hevent => ?_, ?_, fun ha => ?_⟩
  · exact (h.expired (hcut nofun ha)).imp_left (by simp [ExpiredIn, hlog])
  · exact (h.refuses hnext).imp_right (by simp [RefusedIn, hlog])
  · simpa [hlog] using h.armed (hcut nofun ha)
  · simpa [hlog] using h.silent hrefused a
  · exact h.settles (hcut nofun ha) a hne (by simpa [hlog] using hmem)
  · exact h.ends (hend.imp_left (by simp [ExpiredIn, hlog])) (hcut nofun ha)
  · simp [hlog, hasks]
  · exact ((hlog event).mp hevent).elim (htells event) fun heq => .inr (.inr (.inl heq))
  · cases x.output <;> simp
  · exact hearly.elim id fun heq => heq.trans (Option.map_eq_none_iff.mp (hcut nofun ha))

theorem poll_spec (r : Race) (x : Surroundings α) (hearly : r.early = none) :
    Polled r x (r.poll x).1 (r.poll x).2.1 (r.poll x).2.2 := by
  obtain ⟨e, first, early⟩ := r
  subst hearly
  have h := e.poll_spec x
  have hasks := e.poll_asks x
  cases first with
  | true =>
    have hpoll : poll ⟨e, true, none⟩ x = (⟨(e.poll x).1, false, (e.poll x).2.1⟩,
        x.output.elim ((e.poll x).2.1.map .error) fun v => some (.ok v),
        (e.poll x).2.2 ++ [.future x.output]) := by
      rw [poll]
      cases x.output <;> cases h : (e.poll x).2.1 <;> simp [h]
    rw [hpoll]
    refine .of_expiry h hasks (e.poll_tells x) (by simp) ?_ (.inr rfl)
    refine h.follows.snoc fun a ha => ?_
    exact ⟨fun _ _ _ => nofun, fun v hv => absurd ha (hv ▸ hasks _)⟩
  | false =>
    cases hout : x.output with
    | none =>
      have hpoll : poll ⟨e, false, none⟩ x = (⟨(e.poll x).1, false, none⟩,
          x.output.elim ((e.poll x).2.1.map .error) fun v => some (.ok v),
          .future x.output :: (e.poll x).2.2) := by
        rw [poll, hout]
        rfl
      rw [hpoll]
      refine .of_expiry h hasks (e.poll_tells x) (by simp [or_comm]) ?_ (.inl rfl)
      exact pairwise_cons.mpr ⟨fun b _ => ⟨nofun, by simp [hout]⟩, h.follows⟩
    | some v =>
      have hpoll : poll ⟨e, false, none⟩ x =
          (⟨e, false, none⟩, some (.ok v), [.future (some v)]) := by
        rw [poll, hout]
        rfl
      rw [hpoll]
      refine ⟨?_, ?_, ?_, ?_, ?_⟩ <;> [constructor; skip; skip; skip; skip] <;>
        simp +contextual [hout, Surroundings.Tells]

/-! ## All polls -/

/-- **What the polls of a race come to.** -/
structure Driven (r : Race) (xs : List (Surroundings α)) (logs : List (List (WaitEvent α)))
    (answer : Option (Except Cut α)) : Prop where
  asks : ∀ (i : ℕ) (log : List (WaitEvent α)), logs[i]? = some log →
    ∃ x, xs[i]? = some x ∧ .future x.output ∈ log ∧ (∀ event ∈ log, x.Tells event) ∧
      ∀ v, x.output = some v → answer = some (.ok v)
  value : ∀ v, answer = some (.ok v) → ∃ log ∈ logs, .future (some v) ∈ log
  expired : answer = some (.error .expired) →
    (∃ log ∈ logs, ExpiredIn r.expiry.until_ log) ∨ r.expiry.sleep = false
  refused : answer = some (.error .refused) → ∃ pre last, logs = pre ++ [last] ∧
    .future none ∈ last ∧ (r.expiry.refused = true ∨ ∃ log ∈ pre, RefusedIn r.expiry.until_ log)
  polls : answer = none → logs.length = xs.length
  ends : (∃ log ∈ logs, ExpiredIn r.expiry.until_ log) → answer ≠ none
  ended : r.expiry.sleep = false ∨ r.expiry.refused = true → xs ≠ [] → answer ≠ none
  settles : ∀ (i : ℕ) (log : List (WaitEvent α)), logs[i]? = some log → .sleep .refused ∈ log →
    i + 1 < xs.length → answer ≠ none
  silent : r.expiry.refused = true → ∀ answer, .sleep answer ∉ logs.flatten
  follows : logs.flatten.Pairwise Follows
  armed : ∀ (i : ℕ) (log : List (WaitEvent α)), logs[i]? = some log →
    answer = none ∨ i + 1 < logs.length → .sleep .pending ∈ log ∨ .wake ∈ log

theorem drive_spec (r : Race) (hearly : r.early = none) (xs : List (Surroundings α)) :
    Driven r xs (r.drive xs).1 (r.drive xs).2 := by
  induction xs generalizing r with
  | nil => constructor <;> simp [drive]
  | cons x xs ih =>
    have h := r.poll_spec x hearly
    obtain ⟨⟨next, answer, log⟩, hpoll⟩ : ∃ p, r.poll x = p := ⟨_, rfl⟩
    rw [hpoll] at h
    have hasks : .future x.output ∈ log := (h.asks _).mpr rfl
    cases answer with
    | some answer =>
      rw [show r.drive (x :: xs) = ([log], some answer) by rw [drive, hpoll]]
      refine ⟨fun i log' hi => ?_, fun v hv => ?_, fun hcut => ?_, fun hcut => ?_, nofun,
        fun _ => nofun, fun _ _ => nofun, fun _ _ _ _ _ => nofun, ?_, ?_, ?_⟩
      · obtain ⟨rfl, rfl⟩ : i = 0 ∧ log = log' := by grind
        exact ⟨x, rfl, hasks, h.tells, fun v => (h.value v).mpr⟩
      · exact ⟨log, mem_singleton_self _, (h.value v).mp hv ▸ hasks⟩
      · exact (h.expired hcut).imp_left fun hin => ⟨log, mem_singleton_self _, hin⟩
      · have hout : x.output = none := by
          cases hout : x.output with
          | none => rfl
          | some v => cases ((h.value v).mpr hout).symm.trans hcut
        exact ⟨[], log, rfl, hout ▸ hasks, .inl (h.refused hcut)⟩
      · simpa using h.silent
      · simpa using h.follows
      · grind
    | none =>
      rw [show r.drive (x :: xs) = (log :: (next.drive xs).1, (next.drive xs).2) by
        rw [drive, hpoll]]
      obtain ⟨nasks, nvalue, nexpired, nrefused, npolls, nends, nended, nsettles, nsilent, nfollows,
        narmed⟩ := ih next (h.kept rfl)
      rw [h.until_] at nexpired nrefused nends
      rw [h.sleep] at nexpired
      have hout : x.output = none := Option.eq_none_iff_forall_ne_some.mpr fun v hv => by
        cases (h.value v).mpr hv
      refine ⟨fun i log' hi => ?_, fun v hv => ?_, fun hcut => ?_, fun hcut => ?_, fun hnone => ?_,
        ?_, fun hend => ?_, fun i log' hi hmem hlt => ?_, ?_, ?_, ?_⟩
      · cases i with
        | zero => grind [h.tells]
        | succ i => exact nasks i log' (by simpa using hi)
      · obtain ⟨log', hlog', hmem⟩ := nvalue v hv
        exact ⟨log', mem_cons_of_mem _ hlog', hmem⟩
      · exact (nexpired hcut).imp_left fun ⟨log', hlog', hin⟩ =>
          ⟨log', mem_cons_of_mem _ hlog', hin⟩
      · obtain ⟨pre, last, hlogs, hlast, hwhy⟩ := nrefused hcut
        refine ⟨log :: pre, last, by rw [hlogs]; rfl, hlast, ?_⟩
        rcases hwhy with hnext | ⟨log', hlog', hin⟩
        · exact (h.refuses hnext).imp_right fun hin => ⟨log, mem_cons_self, hin⟩
        · exact .inr ⟨log', mem_cons_of_mem _ hlog', hin⟩
      · rw [length_cons, npolls hnone, length_cons]
      · rintro ⟨log', hlog', hin⟩
        rcases mem_cons.mp hlog' with rfl | hlog'
        · exact absurd rfl (h.ends (.inl hin))
        · exact nends ⟨log', hlog', hin⟩
      · exact absurd rfl (h.ends (.inr hend))
      · cases i with
        | zero =>
          -- the refusal is kept for the next poll, which there is
          obtain rfl : log = log' := by simpa using hi
          exact nended (.inr (h.settles rfl .refused nofun hmem)) (by rintro rfl; simp at hlt)
        | succ i => exact nsettles i log' (by simpa using hi) hmem (by simpa using hlt)
      · intro hrefused answer
        rw [flatten_cons, mem_append, not_or]
        exact ⟨h.silent hrefused answer, nsilent (h.stays hrefused) answer⟩
      · rw [flatten_cons, pairwise_append]
        refine ⟨h.follows, nfollows, fun e he e' he' => ⟨fun a ha hne b hb => ?_, fun v hv => ?_⟩⟩
        · exact nsilent (h.settles rfl a hne (ha ▸ he)) b (hb ▸ he')
        · have := (h.asks _).mp (hv ▸ he)
          rw [hout] at this
          cases this
      · intro i log' hi hgoes
        cases i with
        | zero => grind [h.armed rfl]
        | succ i => exact narmed i log' (by simpa using hi) (hgoes.imp_right (by simp))

/-- A race against a bound that was made when the clock read `now`: no bound begins refused,
and one without a sleep is one that the clock has read as passed. -/
def Ends (range now : ℕ) (e : Expiry) (xs : List (Surroundings α)) : Prop :=
  Driven { expiry := e } xs (drive { expiry := e } xs).1 (drive { expiry := e } xs).2 ∧
    e.refused = false ∧ (now ≤ range → e.sleep = false → e.passed now = true)

/-- **A bounded wait reports the right end**, whatever the clock, the sleep and the future
answer in its polls, for a bound from now on and for one that ends at a given moment. -/
theorem race_ends (range now d until_ : ℕ) (xs : List (Surroundings α)) :
    Ends range now (.after range now d) xs ∧ Ends range now (.at_ now until_) xs := by
  refine ⟨⟨drive_spec _ rfl xs, rfl, fun hrange hsleep => ?_⟩,
    drive_spec _ rfl xs, rfl, fun _ hsleep => ?_⟩
  · have hd : d = 0 := by simpa [Expiry.after] using hsleep
    simp [Expiry.passed, Expiry.after, hrange, hd]
  · have hle : until_ ≤ now := by simpa [Expiry.at_, Nat.sub_eq_zero_iff_le] using hsleep
    simp [Expiry.passed, Expiry.at_, hle]

end Race

end Ulo
