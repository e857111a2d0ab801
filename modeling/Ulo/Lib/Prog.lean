import Mathlib.Tactic.Common

/-!
# Programs that fail, are dropped, or do not end

A program over a state returns a value, fails with an error, or is **dropped**:
the one waiting for it goes away at one of its waits, nothing after that wait
runs, and the state stays as it is there. A program defined by recursion on fuel
can also run out of it, and is then **diverged**.

`Ensures P p Q X` is a total triple for such programs. From a state with `P` the
program does not diverge, a value it returns satisfies `Q` with the state it
leaves, and the other two ends satisfy `X`. The exits are one argument because
they pass through `bind` together and unchanged.
-/

/-- How a program ends. -/
inductive Prog.Outcome (ε α : Type)
  | done (a : α)
  | failed (e : ε)
  | dropped
  | diverged
deriving DecidableEq

namespace Prog.Outcome

variable {ε α : Type}

/-- The value a program returned. -/
def value : Outcome ε α → Option α
  | done a => some a
  | _ => none

/-- Whether a program was dropped. -/
def isDropped : Outcome ε α → Bool
  | dropped => true
  | _ => false

/-- The end of a program that returned nothing, as that of another. -/
inductive Exits {β : Type} : Outcome ε α → Outcome ε β → Prop
  | failed {e : ε} : Exits (failed e) (failed e)
  | dropped : Exits dropped dropped
  | diverged : Exits diverged diverged

theorem value_eq {o : Outcome ε α} {a : α} : o.value = some a ↔ o = done a := by
  cases o <;> simp [value]

end Prog.Outcome

/-- **A program** over the state `σ` with errors in `ε`. -/
def Prog (ε σ α : Type) : Type := σ → Prog.Outcome ε α × σ

namespace Prog

variable {ε ε' σ α β : Type} {p : Prog ε σ α} {f : α → Prog ε σ β} {s s' : σ} {l : List β} {e : ε}

/-- Returns a value. -/
def ret (a : α) : Prog ε σ α := fun s => (.done a, s)

/-- Sequencing: only a value is handed on. -/
def andThen (p : Prog ε σ α) (f : α → Prog ε σ β) : Prog ε σ β := fun s =>
  match p s with
  | (.done a, s) => f a s
  | (.failed e, s) => (.failed e, s)
  | (.dropped, s) => (.dropped, s)
  | (.diverged, s) => (.diverged, s)

instance : Monad (Prog ε σ) where
  pure := ret
  bind := andThen

/-- Fails. -/
def fail (e : ε) : Prog ε σ α := fun s => (.failed e, s)

/-- Is dropped here. -/
def drop : Prog ε σ α := fun s => (.dropped, s)

/-- Runs out of fuel. -/
def diverge : Prog ε σ α := fun s => (.diverged, s)

/-- The state. -/
def get : Prog ε σ σ := fun s => (.done s, s)

/-- Changes the state. -/
def modify (f : σ → σ) : Prog ε σ Unit := fun s => (.done (), f s)

/-- Runs `q` where `p` is dropped: the bound around `p` may be what ended it. -/
def orDropped (p q : Prog ε σ α) : Prog ε σ α := fun s =>
  match p s with
  | (.dropped, s) => q s
  | out => out

/-- A failure as a value. -/
def attempt (p : Prog ε σ α) : Prog ε' σ (Except ε α) := fun s =>
  match p s with
  | (.done a, s) => (.done (.ok a), s)
  | (.failed e, s) => (.done (.error e), s)
  | (.dropped, s) => (.dropped, s)
  | (.diverged, s) => (.diverged, s)

/-- Runs `f` over a list, one after another, and collects what it returns. -/
def each (f : β → Prog ε σ α) : List β → Prog ε σ (List α)
  | [] => pure []
  | b :: l => do
    let a ← f b
    let rest ← each f l
    pure (a :: rest)

/-- A program over a part of the state. -/
def within {τ : Type} (part : τ → σ) (put : τ → σ → τ) (p : Prog ε σ α) : Prog ε τ α := fun t =>
  ((p (part t)).1, put t (p (part t)).2)

/-- A run, by how it ends. -/
theorem run_eq {r : Outcome ε α × σ} {o : Outcome ε α} (h : r.1 = o) : r = (o, r.2) := by
  rw [← h]

/-- A sequence goes on from what its first program returned. -/
theorem bind_of_done {a : α} (h : p s = (.done a, s')) : (p >>= f) s = f a s' := by
  change andThen p f s = _
  rw [andThen, h]

/-- A sequence ends with its first program, where that returns nothing. -/
theorem bind_of_exits {o : Outcome ε α} {o' : Outcome ε β} (h : p s = (o, s')) (ho : o.Exits o') :
    (p >>= f) s = (o', s') := by
  change andThen p f s = _
  rw [andThen, h]
  cases ho <;> rfl

/-- **What a walk over a list returns**, item by item, with the state handed on. -/
inductive Walk (f : β → Prog ε σ α) : List β → σ → List α → σ → Prop
  | nil {s : σ} : Walk f [] s [] s
  | cons {b : β} {a : α} {l : List β} {out : List α} {s s₁ s' : σ} (hb : f b s = (.done a, s₁))
      (hl : Walk f l s₁ out s') : Walk f (b :: l) s (a :: out) s'

/-- **A walk returns what its items do**, or ends as the first that returns nothing. -/
theorem each_cases (f : β → Prog ε σ α) (l : List β) (s : σ) :
    (∃ out s', Walk f l s out s' ∧ each f l s = (.done out, s')) ∨
      ∃ pre b post out s₁ o o' s', l = pre ++ b :: post ∧ Walk f pre s out s₁ ∧
        f b s₁ = (o, s') ∧ o.Exits o' ∧ each f l s = (o', s') := by
  induction l generalizing s with
  | nil => exact .inl ⟨[], s, .nil, rfl⟩
  | cons b l ih =>
    cases hb : f b s with
    | mk o s₁ =>
      cases o with
      | done a =>
        rcases ih s₁ with ⟨out, s', hwalk, heach⟩ |
          ⟨pre, b', post, out, s₂, o, o', s', rfl, hwalk, hb', ho, heach⟩
        · exact .inl ⟨a :: out, s', .cons hb hwalk, (bind_of_done hb).trans (bind_of_done heach)⟩
        · exact .inr ⟨b :: pre, b', post, a :: out, s₂, o, o', s', rfl, .cons hb hwalk, hb', ho,
            (bind_of_done hb).trans (bind_of_exits heach (by cases ho <;> constructor))⟩
      | failed e =>
        exact .inr ⟨[], b, l, [], s, _, _, _, rfl, .nil, hb, .failed, bind_of_exits hb .failed⟩
      | dropped =>
        exact .inr ⟨[], b, l, [], s, _, _, _, rfl, .nil, hb, .dropped, bind_of_exits hb .dropped⟩
      | diverged =>
        exact .inr ⟨[], b, l, [], s, _, _, _, rfl, .nil, hb, .diverged, bind_of_exits hb .diverged⟩

/-! ## Triples -/

/-- What holds of the state when a program fails or is dropped. -/
structure Exits (ε σ : Type) where
  failed : ε → σ → Prop
  dropped : σ → Prop

/-- What an outcome and a state satisfy. -/
def Meets (Q : α → σ → Prop) (X : Exits ε σ) : Outcome ε α × σ → Prop
  | (.done a, s) => Q a s
  | (.failed e, s) => X.failed e s
  | (.dropped, s) => X.dropped s
  | (.diverged, _) => False

/-- **The triple.** -/
def Ensures (P : σ → Prop) (p : Prog ε σ α) (Q : α → σ → Prop) (X : Exits ε σ) : Prop :=
  ∀ s, P s → Meets Q X (p s)

namespace Ensures

variable {P P' : σ → Prop} {p q : Prog ε σ α} {Q Q' : α → σ → Prop} {R : β → σ → Prop}
  {X X' : Exits ε σ} {f : β → Prog ε σ α}

theorem ret {a : α} (h : ∀ s, P s → Q a s) : Ensures P (pure a) Q X := h

theorem fail (h : ∀ s, P s → X.failed e s) : Ensures P (Prog.fail e) Q X := h

theorem drop (h : ∀ s, P s → X.dropped s) : Ensures P Prog.drop Q X := h

theorem get {Q : σ → σ → Prop} (h : ∀ s, P s → Q s s) : Ensures P Prog.get Q X := h

theorem modify {f : σ → σ} {Q : Unit → σ → Prop} (h : ∀ s, P s → Q () (f s)) :
    Ensures P (Prog.modify f) Q X := h

section

variable (h : Ensures P p Q X) {s : σ}
include h

/-- The consequence rule. -/
theorem mono (hP : ∀ s, P' s → P s) (hQ : ∀ a s, Q a s → Q' a s)
    (hfailed : ∀ e s, X.failed e s → X'.failed e s) (hdropped : ∀ s, X.dropped s → X'.dropped s) :
    Ensures P' p Q' X' := by
  intro s hs
  have hmeets := h s (hP s hs)
  revert hmeets
  cases p s with
  | mk out s' =>
    cases out with
    | done a => exact hQ a s'
    | failed e => exact hfailed e s'
    | dropped => exact hdropped s'
    | diverged => exact id

/-- What all the ends have in common holds of the state that is left. -/
theorem final {R : σ → Prop} (hdone : ∀ a s, Q a s → R s) (hfailed : ∀ e s, X.failed e s → R s)
    (hdropped : ∀ s, X.dropped s → R s) (hs : P s) : (p s).1 ≠ .diverged ∧ R (p s).2 := by
  have hmeets := h s hs
  revert hmeets
  cases p s with
  | mk out s' =>
    cases out with
    | done a => exact fun h => ⟨nofun, hdone a s' h⟩
    | failed e => exact fun h => ⟨nofun, hfailed e s' h⟩
    | dropped => exact fun h => ⟨nofun, hdropped s' h⟩
    | diverged => exact False.elim

theorem ne_diverged (hs : P s) : (p s).1 ≠ .diverged :=
  (h.final (R := fun _ => True) (fun _ _ _ => trivial) (fun _ _ _ => trivial) (fun _ _ => trivial)
    hs).1

/-- What a failure satisfies. -/
theorem of_failed (hs : P s) (he : (p s).1 = .failed e) : X.failed e (p s).2 := by
  have hmeets := h s hs
  revert hmeets he
  cases p s with
  | mk =>
    rintro rfl
    exact id

/-- A stronger precondition. -/
theorem pre (hP : ∀ s, P' s → P s) : Ensures P' p Q X :=
  fun s hs => h s (hP s hs)

/-- A weaker postcondition. -/
theorem post (hQ : ∀ a s, Q a s → Q' a s) : Ensures P p Q' X :=
  h.mono (fun _ hs => hs) hQ (fun _ _ he => he) fun _ hd => hd

end

/-- **Sequencing.** -/
theorem bind {f : α → Prog ε σ β} (hp : Ensures P p Q X) (hf : ∀ a, Ensures (Q a) (f a) R X) :
    Ensures P (p >>= f) R X := by
  intro s hs
  have hmeets := hp s hs
  change Meets R X (andThen p f s)
  unfold andThen
  revert hmeets
  cases p s with
  | mk out s' =>
    cases out with
    | done a => exact hf a s'
    | failed | dropped | diverged => exact id

/-- Nothing comes after a failure. -/
theorem fail_bind {f : α → Prog ε σ β} (h : ∀ s, P s → X.failed e s) :
    Ensures P (Prog.fail e >>= f) R X := h

/-- Where a pure fact is all the precondition says. -/
theorem of_pre {A : Prop} (h : A → Ensures P p Q X) (hP : ∀ s, P s → A) : Ensures P p Q X :=
  fun s hs => h (hP s hs) s hs

theorem orDropped {Z : Exits ε σ} (hp : Ensures P p Q ⟨X.failed, Z.dropped⟩)
    (hq : Ensures Z.dropped q Q X) : Ensures P (p.orDropped q) Q X := by
  intro s hs
  have hmeets := hp s hs
  unfold Prog.orDropped
  revert hmeets
  cases p s with
  | mk out s' =>
    cases out with
    | done | failed | diverged => exact id
    | dropped => exact hq s'

theorem attempt {X' : Exits ε' σ} {Q' : Except ε α → σ → Prop}
    (h : Ensures P p (fun a => Q' (.ok a)) ⟨fun e => Q' (.error e), X'.dropped⟩) :
    Ensures P (p.attempt : Prog ε' σ (Except ε α)) Q' X' := by
  intro s hs
  have hmeets := h s hs
  unfold Prog.attempt
  revert hmeets
  cases p s with
  | mk out => cases out <;> exact id

/-- **The rule for a walk over a list.** The invariant speaks of the part of the
list that the walk has behind it. -/
theorem each (l : List β) (I : List β → σ → Prop) (h : ∀ pre b post, l = pre ++ b :: post →
      Ensures (I pre) (f b) (fun _ => I (pre ++ [b])) X) :
    Ensures (I []) (Prog.each f l) (fun _ => I l) X := by
  suffices hwalk : ∀ pre rest, l = pre ++ rest →
      Ensures (I pre) (Prog.each f rest) (fun _ => I l) X from hwalk [] l rfl
  intro pre rest
  induction rest generalizing pre with
  | nil =>
    intro hl
    refine ret fun s hs => ?_
    rwa [hl, List.append_nil]
  | cons b rest ih =>
    intro hl
    refine bind (h pre b rest hl) fun a => bind (Q := fun _ => I l) ?_ fun _ => ret fun _ hs => hs
    exact ih (pre ++ [b]) (by rw [hl, List.append_assoc, List.singleton_append])

/-- A walk that keeps an invariant at each of its steps keeps it. -/
theorem each_inv {I : σ → Prop} (h : ∀ b ∈ l, Ensures I (f b) (fun _ => I) X) :
    Ensures I (Prog.each f l) (fun _ => I) X :=
  each l (fun _ => I) fun pre b post hl => h b (by simp [hl])

end Ensures

end Prog
