import Mathlib.Data.List.Basic

/-!
# Checks that collect errors

A validation pass threads a state through its checks and never stops at the
first problem: it appends what it finds and goes on. `Checks f P` says what
such a check is worth – if the state is clean after `f` then it was clean
before and `P` holds – so that a clean end of a whole pass gives the property
of every check it ran.
-/

namespace Check

variable {σ α : Type} {Clean : σ → Prop} {f g : σ → σ} {P Q : Prop}

/-- **A check worth `P`**: clean afterwards means clean before, and `P`. -/
def Checks (Clean : σ → Prop) (f : σ → σ) (P : Prop) : Prop :=
  ∀ s, Clean (f s) → Clean s ∧ P

namespace Checks

theorem mono (h : Checks Clean f P) (hPQ : P → Q) : Checks Clean f Q :=
  fun s hc => (h s hc).imp_right hPQ

/-- A check that does nothing. -/
theorem skip (hP : P) : Checks Clean (fun s => s) P := fun _ hc => ⟨hc, hP⟩

/-- One check after another is worth both. -/
theorem seq (hf : Checks Clean f P) (hg : Checks Clean g Q) :
    Checks Clean (fun s => g (f s)) (P ∧ Q) := by
  intro s hc
  obtain ⟨hmid, hQ⟩ := hg _ hc
  obtain ⟨hstart, hP⟩ := hf s hmid
  exact ⟨hstart, hP, hQ⟩

/-- **A loop of checks** is worth the property of each. -/
theorem foldl {step : σ → α → σ} {prop : α → Prop} {l : List α}
    (h : ∀ a ∈ l, Checks Clean (fun s => step s a) (prop a)) :
    Checks Clean (fun s => l.foldl step s) (∀ a ∈ l, prop a) := by
  induction l with
  | nil => exact skip fun _ h => nomatch h
  | cons a l ih =>
    have hhead := h a List.mem_cons_self
    have htail := ih fun b hb => h b (List.mem_cons_of_mem a hb)
    refine (hhead.seq htail).mono ?_
    rintro ⟨ha, hl⟩ b hb
    rcases List.mem_cons.mp hb with rfl | hb
    · exact ha
    · exact hl b hb

end Checks

end Check

/-- A pass that is known to answer, by its answer. -/
theorem Except.eq_ok_getD {ε α : Type} {e : Except ε α} (d : α) (h : e.toOption.isSome = true) :
    e = .ok (e.toOption.getD d) := by
  cases e with
  | ok => rfl
  | error => cases h
