import Mathlib.Data.List.Basic

/-!
# Loops with a bound

A `while` loop is a step function `σ → Option σ` – `none` is the exit of
the loop – run with a bound on its iterations. The bound keeps the loop
structurally recursive, so that a run on a concrete state evaluates; that
the bound is never what ends the loop is a theorem about a measure
(`Loop.run_halts`), and what the loop establishes is its invariant
together with the exit condition (`Loop.run_spec`).
-/

namespace Loop

variable {σ : Type*} {step : σ → Option σ} {fuel : ℕ}

/-- **A loop of at most `fuel` iterations**: `step` until it answers `none`. -/
def run (step : σ → Option σ) : ℕ → σ → σ
  | 0, s => s
  | fuel + 1, s =>
    match step s with
    | none => s
    | some s' => run step fuel s'

theorem run_succ_none {s : σ} (h : step s = none) : run step (fuel + 1) s = s := by
  simp only [run, h]

theorem run_succ_some {s s' : σ} (h : step s = some s') :
    run step (fuel + 1) s = run step fuel s' := by
  simp only [run, h]

variable (step) in
/-- **The invariant rule**: what every iteration keeps, the loop keeps. -/
theorem run_inv (Inv : σ → Prop)
    (hstep : ∀ s s', Inv s → step s = some s' → Inv s') (fuel : ℕ) (s : σ)
    (hs : Inv s) : Inv (run step fuel s) := by
  induction fuel generalizing s with
  | zero => exact hs
  | succ fuel ih =>
    cases h : step s with
    | none => rw [run_succ_none h]; exact hs
    | some s' => rw [run_succ_some h]; exact ih s' (hstep s s' hs h)

variable (step) in
/-- **The variant rule**: a measure that every iteration lowers, and that the
bound covers, makes the loop reach its exit. -/
theorem run_halts (Inv : σ → Prop) (μ : σ → ℕ)
    (hstep : ∀ s s', Inv s → step s = some s' → Inv s' ∧ μ s' < μ s)
    (fuel : ℕ) (s : σ) (hs : Inv s) (hμ : μ s ≤ fuel) :
    step (run step fuel s) = none := by
  induction fuel generalizing s with
  | zero =>
    cases h : step s with
    | none => exact h
    | some s' =>
      have := (hstep s s' hs h).2
      omega
  | succ fuel ih =>
    cases h : step s with
    | none => rw [run_succ_none h]; exact h
    | some s' =>
      obtain ⟨hs', hlt⟩ := hstep s s' hs h
      rw [run_succ_some h]
      exact ih s' hs' (by omega)

variable (step) in
/-- **The loop rule**: an invariant and a measure give the invariant at the
exit. -/
theorem run_spec (Inv : σ → Prop) (μ : σ → ℕ)
    (hstep : ∀ s s', Inv s → step s = some s' → Inv s' ∧ μ s' < μ s)
    (fuel : ℕ) (s : σ) (hs : Inv s) (hμ : μ s ≤ fuel) :
    Inv (run step fuel s) ∧ step (run step fuel s) = none :=
  ⟨run_inv step Inv (fun s s' h h' => (hstep s s' h h').1) fuel s hs,
    run_halts step Inv μ hstep fuel s hs hμ⟩

end Loop
