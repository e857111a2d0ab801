import Mathlib.Data.List.Infix

/-!
# Machines and their runs

A machine is a state to start from and what each action does to a state, where it
can be taken. Tasks that share a state are one machine: an action is one step of
one of them, and the interleavings are the lists of actions. A run is computed, so
that a concrete interleaving evaluates; and what holds of every run is proved step
by step (`Machine.run_induction`, `Machine.invariant`).

Some statements are about the past of a run: that a state with some property was
passed (`Machine.Once`), or what was there when an action was taken
(`Machine.TookAt`), which is computed for a concrete run (`Machine.checks`).
-/

/-- **A machine** with states in `σ` and actions in `ι`. -/
structure Machine (σ ι : Type) where
  init : σ
  step : σ → ι → Option σ

namespace Machine

open List Option

variable {σ ι : Type} {M : Machine σ ι} {s s' : σ} {a : ι} {t t' : List ι} {P : σ → Prop}
  {pre : List ι} {s₀ : σ}

variable (M) in
/-- **The run of some actions**, if each of them can be taken in its turn. -/
def run (t : List ι) : Option σ := t.foldlM M.step M.init

theorem run_append_singleton :
    M.run (t ++ [a]) = some s' ↔ ∃ s, M.run t = some s ∧ M.step s a = some s' := by
  rw [run, foldlM_append]
  show ((t.foldlM M.step M.init).bind fun s => [a].foldlM M.step s) = some s' ↔ _
  rw [bind_eq_some_iff]
  refine exists_congr fun s => and_congr_right fun _ => ?_
  rw [foldlM_cons]
  show (M.step s a).bind some = some s' ↔ _
  rw [bind_fun_some]

/-- **Induction on a run**: it is extended by one action at its end. -/
theorem run_induction {P : List ι → σ → Prop} (hinit : P [] M.init)
    (hstep : ∀ t s a s', M.run t = some s → P t s → M.step s a = some s' → P (t ++ [a]) s')
    (h : M.run t = some s) : P t s := by
  induction t using reverseRecOn generalizing s with
  | nil =>
    cases h
    exact hinit
  | append_singleton t a ih =>
    obtain ⟨s₀, h₀, h₁⟩ := run_append_singleton.mp h
    exact hstep t s₀ a s h₀ (ih h₀) h₁

/-- **The invariant rule**: what every step keeps holds in every run. -/
theorem invariant (hinit : P M.init) (hstep : ∀ s a s', P s → M.step s a = some s' → P s')
    (h : M.run t = some s) : P s :=
  run_induction (P := fun _ s => P s) hinit (fun _ s a s' _ => hstep s a s') h

/-- The first part of a run is a run. -/
theorem run_of_prefix (hpre : t' <+: t) (h : M.run t = some s) : ∃ s', M.run t' = some s' := by
  induction t using reverseRecOn generalizing s with
  | nil =>
    rw [prefix_nil.mp hpre]
    exact ⟨_, rfl⟩
  | append_singleton t a ih =>
    rcases prefix_concat_iff.mp hpre with rfl | hpre
    · exact ⟨s, h⟩
    · obtain ⟨s₀, h₀, -⟩ := run_append_singleton.mp h
      exact ih hpre h₀

/-- **What no step undoes** holds in every continuation. -/
theorem holds_from (hstep : ∀ s a s', P s → M.step s a = some s' → P s') (h : M.run t = some s)
    (hs : P s) (h' : M.run (t ++ t') = some s') : P s' := by
  induction t' using reverseRecOn generalizing s' with
  | nil =>
    rw [append_nil, h] at h'
    cases h'
    exact hs
  | append_singleton t' a ih =>
    rw [← append_assoc] at h'
    obtain ⟨s₁, h₁, ha⟩ := run_append_singleton.mp h'
    exact hstep s₁ a s' (ih h₁) ha

/-! ## The past of a run -/

variable (M) in
/-- **A state with `P` was passed**, the last one included. -/
def Once (P : σ → Prop) (t : List ι) : Prop :=
  ∃ pre s, pre <+: t ∧ M.run pre = some s ∧ P s

section Once

variable {P : σ → Prop}

theorem Once.now (h : M.run t = some s) (hs : P s) : M.Once P t :=
  ⟨t, s, prefix_rfl, h, hs⟩

theorem Once.later (h : M.Once P t') (hpre : t' <+: t) : M.Once P t := by
  obtain ⟨pre, s, hpre', hrun, hs⟩ := h
  exact ⟨pre, s, hpre'.trans hpre, hrun, hs⟩

end Once

variable (M) in
/-- The action `a` was taken in the state `s`, after the actions `pre`. -/
structure TookAt (t pre : List ι) (s : σ) (a : ι) : Prop where
  taken : pre ++ [a] <+: t
  run : M.run pre = some s

theorem tookAt_snoc {b : ι} (h : M.run t = some s) :
    M.TookAt (t ++ [a]) pre s₀ b ↔ M.TookAt t pre s₀ b ∨ pre = t ∧ s₀ = s ∧ b = a := by
  constructor
  · rintro ⟨hpre, hrun⟩
    rcases prefix_concat_iff.mp hpre with heq | hpre
    · obtain ⟨rfl, hb⟩ := append_inj' heq rfl
      rw [hrun] at h
      exact .inr ⟨rfl, some.inj h, head_eq_of_cons_eq hb⟩
    · exact .inl ⟨hpre, hrun⟩
  · rintro (⟨hpre, hrun⟩ | ⟨rfl, rfl, rfl⟩)
    · exact ⟨hpre.trans (prefix_append _ _), hrun⟩
    · exact ⟨prefix_rfl, h⟩

theorem not_tookAt_nil : ¬ M.TookAt [] pre s a :=
  fun h => by simpa using prefix_nil.mp h.taken

/-- **The invariant rule under a condition on the steps**: what the steps that meet it
keep holds in every run of such steps. -/
theorem invariant_of_steps {C : σ → ι → Prop} (hinit : P M.init)
    (hstep : ∀ s a s', P s → C s a → M.step s a = some s' → P s')
    (hsteps : ∀ pre s₀ a, M.TookAt t pre s₀ a → C s₀ a) (h : M.run t = some s) : P s := by
  revert hsteps
  refine run_induction (P := fun t s => (∀ pre s₀ a, M.TookAt t pre s₀ a → C s₀ a) → P s) ?_ ?_ h
  · exact fun _ => hinit
  · intro t s a s' hrun ih ha hsteps
    refine hstep s a s' (ih fun pre s₀ b htook => ?_) ?_ ha
    · exact hsteps pre s₀ b ((tookAt_snoc hrun).mpr (.inl htook))
    · exact hsteps t s a ((tookAt_snoc hrun).mpr (.inr ⟨rfl, rfl, rfl⟩))

variable (M) in
/-- Whether every action of a run is taken where `C` allows it. -/
def checks (C : σ → ι → Bool) : List ι → σ → Bool
  | [], _ => true
  | a :: t, s => C s a && (M.step s a).all (checks C t)

/-- **A condition on the steps of a concrete run is computed.** -/
theorem TookAt.of_checks {C : σ → ι → Bool} (htook : M.TookAt t pre s₀ a)
    (hchecks : M.checks C t M.init = true) : C s₀ a = true := by
  obtain ⟨rest, rfl⟩ := htook.taken
  have hrun : pre.foldlM M.step M.init = some s₀ := htook.run
  clear htook
  generalize M.init = s at hrun hchecks
  induction pre generalizing s with
  | nil =>
    cases hrun
    exact (Bool.and_eq_true_iff.mp hchecks).1
  | cons b pre ih =>
    rw [foldlM_cons] at hrun
    obtain ⟨s₁, hstep, hrun⟩ := bind_eq_some_iff.mp hrun
    refine ih s₁ hrun ?_
    have hrest := (Bool.and_eq_true_iff.mp hchecks).2
    rwa [hstep] at hrest

theorem TookAt.step (htook : M.TookAt t pre s₀ a) (h : M.run t = some s) :
    ∃ s₁, M.step s₀ a = some s₁ := by
  obtain ⟨s₁, hrun⟩ := run_of_prefix htook.taken h
  obtain ⟨s₂, hrun₂, hstep⟩ := run_append_singleton.mp hrun
  rw [htook.run] at hrun₂
  cases hrun₂
  exact ⟨s₁, hstep⟩

/-- **What an action brings about and no step undoes** still holds, wherever in the
run the action was taken. -/
theorem holds_after (hnow : ∀ s₀ s₁, M.step s₀ a = some s₁ → P s₁)
    (hstep : ∀ s b s', P s → M.step s b = some s' → P s') (h : M.run t = some s) (ha : a ∈ t) :
    P s := by
  refine run_induction (P := fun t s => a ∈ t → P s) (fun ha => by cases ha) ?_ h ha
  intro t s b s' _ ih hb ha
  rcases mem_append.mp ha with ha | ha
  · exact hstep s b s' (ih ha) hb
  · rw [mem_singleton.mp ha] at hnow
    exact hnow s s' hb

/-- The same for one occasion. -/
theorem TookAt.holds_after (htook : M.TookAt t pre s₀ a) (hnow : ∀ s₁, M.step s₀ a = some s₁ → P s₁)
    (hstep : ∀ s b s', P s → M.step s b = some s' → P s') (h : M.run t = some s) : P s := by
  refine run_induction (P := fun t s => M.TookAt t pre s₀ a → P s) ?_ ?_ h htook
  · exact fun htook => absurd htook not_tookAt_nil
  · intro t s b s' hrun ih hb htook
    rcases (tookAt_snoc hrun).mp htook with htook | ⟨-, rfl, rfl⟩
    · exact hstep s b s' (ih htook) hb
    · exact hnow s' hb

end Machine
