import Mathlib.Data.List.Perm.Subperm
import Mathlib.Data.List.Induction
import Mathlib.Data.List.Nodup
import Ulo.Lib.List
import Ulo.Lib.Loop

/-!
# Topological sorting with the smallest node first

Kahn's algorithm with a priority queue: every node counts the dependencies it
waits for, and of the nodes that wait for none the smallest is placed next.

What the order is does not depend on the counters: a list is **greedy** when
each of its elements is the least node that is ready after those before it
(`Kahn.Greedy`). The algorithm produces a greedy list that cannot be extended
(`Kahn.place_spec`); greedy lists over the same nodes are prefixes of one that
cannot (`Kahn.Greedy.prefix_of_maximal`), and without cycles such a one has all
nodes (`Kahn.mem_of_maximal`).
-/

namespace Kahn

open List

/-- The counters, the nodes that wait for nothing, and the order so far. -/
structure State where
  waiting : ℕ → ℕ
  ready : List ℕ
  order : List ℕ := []

/-- One dependency of `d` is placed; `d` is ready when it was the last. -/
def release (s : State) (d : ℕ) : State :=
  { s with
    waiting := Function.update s.waiting d (s.waiting d - 1)
    ready := if s.waiting d - 1 = 0 then s.ready ++ [d] else s.ready }

variable (nodes : List ℕ) (deps : ℕ → List ℕ)

/-- The nodes that wait for `dep`. -/
def dependents (dep : ℕ) : List ℕ := nodes.filter fun i => dep ∈ deps i

/-- One iteration: the smallest ready node is placed and its dependents are
released. -/
def step (s : State) : Option State :=
  match s.ready.min? with
  | none => none
  | some i =>
    some ((dependents nodes deps i).foldl release
      { s with ready := s.ready.erase i, order := s.order ++ [i] })

/-- The state before any node is placed. -/
def init : State where
  waiting i := (deps i).length
  ready := nodes.filter fun i => (deps i).length = 0

/-- The nodes the algorithm places, in order. -/
def place : List ℕ := (Loop.run (step nodes deps) nodes.length (init nodes deps)).order

/-- **The order**: the placed nodes, and after them what a cycle holds back. -/
def order : List ℕ :=
  place nodes deps ++ nodes.filter fun i => i ∉ place nodes deps

/-! ## Greedy lists -/

/-- `i` can be placed after `placed`. -/
def Ready (placed : List ℕ) (i : ℕ) : Prop :=
  i ∈ nodes ∧ i ∉ placed ∧ ∀ d ∈ deps i, d ∈ placed

/-- **A greedy list**: each element is the least that is ready after those
before it. -/
def Greedy (l : List ℕ) : Prop :=
  ∀ pre i post, l = pre ++ i :: post →
    Ready nodes deps pre i ∧ ∀ j, Ready nodes deps pre j → i ≤ j

/-- Nothing is ready after the list. -/
def Maximal (l : List ℕ) : Prop := ∀ i, ¬ Ready nodes deps l i

variable {nodes deps} {l : List ℕ} {i : ℕ}

namespace Greedy

variable {l : List ℕ}

theorem nil : Greedy nodes deps [] := by
  intro pre i post h
  simp at h

section

variable (h : Greedy nodes deps l) {m : List ℕ}
include h

theorem concat (hi : Ready nodes deps l i) (hleast : ∀ j, Ready nodes deps l j → i ≤ j) :
    Greedy nodes deps (l ++ [i]) := by
  intro pre j post hsplit
  rcases eq_nil_or_concat post with rfl | ⟨post, last, rfl⟩
  · obtain ⟨rfl, hij⟩ := append_inj' hsplit rfl
    obtain rfl : i = j := by simpa using hij
    exact ⟨hi, hleast⟩
  · have hsplit : l ++ [i] = (pre ++ j :: post) ++ [last] := by simpa using hsplit
    exact h pre j post (append_inj' hsplit rfl).1

theorem mem_nodes (hi : i ∈ l) : i ∈ nodes := by
  obtain ⟨pre, post, rfl⟩ := append_of_mem hi
  exact (h pre i post rfl).1.1

theorem of_prefix {k : List ℕ} (hk : k <+: l) : Greedy nodes deps k := by
  obtain ⟨rest, rfl⟩ := hk
  rintro pre i post rfl
  exact h pre i (post ++ rest) (by simp)

theorem nodup : l.Nodup := by
  induction l using reverseRecOn with
  | nil => exact nodup_nil
  | append_singleton k i ih =>
    have hi : i ∉ k := (h k i [] rfl).1.2.1
    exact (ih (h.of_prefix ⟨[i], rfl⟩)).snoc fun x hx heq => hi (heq ▸ hx)

/-- Every element follows its dependencies. -/
theorem deps_before {pre post : List ℕ} (hsplit : l = pre ++ i :: post) : ∀ d ∈ deps i, d ∈ pre :=
  (h pre i post hsplit).1.2.2

/-- **Greedy lists are prefixes of a maximal one.** -/
theorem prefix_of_maximal (hm : Greedy nodes deps m) (hmax : Maximal nodes deps m) : l <+: m := by
  -- the two lists agree as far as they go, and `m` ends only where nothing is ready
  suffices hrec : ∀ (k : List ℕ), k <+: l → k <+: m from hrec l (prefix_refl l)
  intro k
  induction k using reverseRecOn with
  | nil => exact fun _ => nil_prefix
  | append_singleton k i ih =>
    rintro ⟨post, hpost⟩
    have hl : l = k ++ i :: post := by simpa using hpost.symm
    obtain ⟨hready, hleast⟩ := h k i post hl
    obtain ⟨rest, hrest⟩ := ih ⟨i :: post, hl.symm⟩
    cases rest with
    | nil =>
      rw [append_nil] at hrest
      exact absurd (hrest ▸ hready) (hmax i)
    | cons j rest =>
      obtain ⟨hready', hleast'⟩ := hm k j rest hrest.symm
      have hij : i = j := le_antisymm (hleast j hready') (hleast' i hready)
      exact ⟨rest, by simp [← hrest, hij]⟩

/-- **A greedy list is the least order** of its nodes in which every node follows its
dependencies. -/
theorem not_lex_of_perm (hperm : m.Perm l)
    (hm : ∀ pre i post, m = pre ++ i :: post → ∀ d ∈ deps i, d ∈ pre) : ¬ List.Lex (· < ·) m l := by
  -- past what the two have in common, the next node of `m` is ready
  suffices hrec : ∀ k pre k', l = pre ++ k → m = pre ++ k' → ¬ List.Lex (· < ·) k' k from
    hrec l [] m rfl rfl
  intro k
  induction k with
  | nil => exact fun _ _ _ _ => not_lex_nil
  | cons i k ih =>
    intro pre k' hl hk'
    cases k' with
    | nil =>
      have hlen := hperm.length_eq
      simp [hl, hk'] at hlen
    | cons j k' =>
      have hj : Ready nodes deps pre j := by
        refine ⟨h.mem_nodes (hperm.subset (by simp [hk'])), fun hmem => ?_, hm pre j k' hk'⟩
        have hnodup := hperm.nodup_iff.mpr h.nodup
        rw [hk'] at hnodup
        exact (nodup_append.mp hnodup).2.2 j hmem j mem_cons_self rfl
      intro hlex
      cases hlex with
      | rel hlt => exact Nat.not_le.mpr hlt ((h pre i k hl).2 j hj)
      | cons hlex => exact ih (pre ++ [i]) k' (by simp [hl]) (by simp [hk']) hlex

end

end Greedy

/-- **Without cycles a maximal list has every node**: a node of least rank
among those left out would be ready. -/
theorem mem_of_maximal (hmax : Maximal nodes deps l) (rank : ℕ → ℕ)
    (hdeps : ∀ i ∈ nodes, ∀ d ∈ deps i, d ∈ nodes ∧ rank d < rank i) (hi : i ∈ nodes) : i ∈ l := by
  induction hr : rank i using Nat.strong_induction_on generalizing i with
  | _ r ih =>
    subst hr
    by_contra hnot
    refine hmax i ⟨hi, hnot, fun d hd => ?_⟩
    obtain ⟨hdn, hlt⟩ := hdeps i hi d hd
    exact ih (rank d) hlt hdn rfl

/-! ## The algorithm is greedy -/

theorem foldl_release (hl : l.Nodup) (s : State) :
    (l.foldl release s).order = s.order ∧
      (∀ i, (l.foldl release s).waiting i = if i ∈ l then s.waiting i - 1 else s.waiting i) ∧
      (l.foldl release s).ready = s.ready ++ l.filter fun d => s.waiting d - 1 = 0 := by
  induction l generalizing s with
  | nil => simp
  | cons d l ih =>
    obtain ⟨hd, hl⟩ := nodup_cons.mp hl
    obtain ⟨horder, hwaiting, hready⟩ := ih hl (release s d)
    have hother : ∀ i, i ≠ d → (release s d).waiting i = s.waiting i := fun i hi =>
      Function.update_of_ne hi ..
    refine ⟨horder, fun i => ?_, ?_⟩
    · rw [foldl_cons, hwaiting i]
      by_cases hi : i = d
      · subst hi
        simp [hd, release]
      · simp [hi, hother i hi]
    · rw [foldl_cons, hready]
      have hfilter : (l.filter fun x => (release s d).waiting x - 1 = 0)
          = l.filter fun x => s.waiting x - 1 = 0 :=
        filter_congr fun x hx => by
          rw [hother x fun h => hd (h ▸ hx)]
      rw [hfilter, filter_cons]
      unfold release
      by_cases h0 : s.waiting d - 1 = 0 <;> simp [h0]

/-- **The invariant**: a counter is the number of dependencies not placed, and
the ready nodes are those that can be placed. -/
structure Inv (nodes : List ℕ) (deps : ℕ → List ℕ) (s : State) : Prop where
  waiting : ∀ i ∈ nodes, s.waiting i = ((deps i).filter fun d => d ∉ s.order).length
  ready : ∀ i, i ∈ s.ready ↔ Ready nodes deps s.order i
  nodup : s.ready.Nodup
  greedy : Greedy nodes deps s.order

theorem init_inv (hnodes : nodes.Nodup) : Inv nodes deps (init nodes deps) := by
  refine ⟨fun i _ => by simp [init], fun i => ?_, hnodes.filter _, .nil⟩
  simp [init, Ready, eq_nil_iff_forall_not_mem]

/-- Placing `x` leaves a node one dependency less to wait for, if it is one. -/
theorem filter_not_mem_concat {order : List ℕ} {x : ℕ} (hl : l.Nodup) (hx : x ∉ order) :
    (l.filter fun d => d ∉ order ++ [x]).length
      = (l.filter fun d => d ∉ order).length - if x ∈ l then 1 else 0 := by
  have hsplit : (l.filter fun d => d ∉ order ++ [x])
      = (l.filter fun d => d ∉ order).erase x := by
    rw [(hl.filter _).erase_eq_filter, filter_filter]
    refine filter_congr fun d _ => ?_
    by_cases hd : d ∈ order <;> by_cases hdx : d = x <;> simp [hd, hdx]
  rw [hsplit]
  by_cases hxl : x ∈ l
  · rw [length_erase_of_mem (mem_filter.mpr ⟨hxl, by simpa using hx⟩), if_pos hxl]
  · rw [erase_of_not_mem fun h => hxl (mem_filter.mp h).1, if_neg hxl]
    rfl

theorem ready_of_step_eq_none {s : State} (h : step nodes deps s = none) : s.ready = [] := by
  unfold step at h
  split at h
  · rename_i hmin
    exact min?_eq_none_iff.mp hmin
  · cases h

/-- **One iteration** keeps the invariant and places one node. -/
theorem step_inv (hnodes : nodes.Nodup) (hdeps : ∀ i ∈ nodes, (deps i).Nodup)
    {s s' : State} (hs : Inv nodes deps s) (h : step nodes deps s = some s') :
    Inv nodes deps s' ∧ s'.order.length = s.order.length + 1 := by
  unfold step at h
  split at h
  · cases h
  rename_i x hmin
  cases h
  have hx : x ∈ s.ready := min?_mem hmin
  have hready := (hs.ready x).mp hx
  have hleast : ∀ j, Ready nodes deps s.order j → x ≤ j := fun j hj =>
    (le_min?_iff hmin).mp (Nat.le_refl x) j ((hs.ready j).mpr hj)
  have hdependents : (dependents nodes deps x).Nodup := hnodes.filter _
  obtain ⟨horder, hwaiting, hnew⟩ := foldl_release hdependents
    { s with ready := s.ready.erase x, order := s.order ++ [x] }
  have hcount : ∀ i ∈ nodes, ((deps i).filter fun d => d ∉ s.order ++ [x]).length
      = if x ∈ deps i then s.waiting i - 1 else s.waiting i := fun i hi => by
    rw [filter_not_mem_concat (hdeps i hi) hready.2.1, hs.waiting i hi]
    split <;> rfl
  have hmemdep : ∀ i, i ∈ dependents nodes deps x ↔ i ∈ nodes ∧ x ∈ deps i := fun i => by
    simp [dependents]
  have hzero : ∀ i ∈ nodes, (∀ d ∈ deps i, d ∈ s.order ++ [x]) ↔
      (if x ∈ deps i then s.waiting i - 1 else s.waiting i) = 0 := fun i hi => by
    rw [← hcount i hi, length_eq_zero_iff, filter_eq_nil_iff]
    simp only [decide_not, Bool.not_eq_eq_eq_not, Bool.not_true, decide_eq_false_iff_not,
      Decidable.not_not]
  have hzero' : ∀ i ∈ nodes, (∀ d ∈ deps i, d ∈ s.order) ↔ s.waiting i = 0 := fun i hi => by
    rw [hs.waiting i hi, length_eq_zero_iff, filter_eq_nil_iff]
    simp
  refine ⟨⟨fun i hi => ?_, fun i => ?_, ?_, ?_⟩, by rw [horder]; simp⟩
  · rw [hwaiting i, horder, hcount i hi]
    simp [hmemdep, hi]
  · -- ready before and not placed now, or released by this step
    rw [hnew, horder]
    simp only [mem_append, mem_filter, hmemdep, decide_eq_true_eq,
      hs.nodup.mem_erase_iff, hs.ready]
    constructor
    · rintro (⟨hne, hi, hnot, hall⟩ | ⟨⟨hi, hxi⟩, h0⟩)
      · exact ⟨hi, by simp [hnot, hne], fun d hd => by simp [hall d hd]⟩
      · have hall := (hzero i hi).mpr (by simpa [hxi] using h0)
        refine ⟨hi, ?_, hall⟩
        -- a placed node has no dependency still to place
        intro hmem
        have hxo : x ∈ s.order := by
          rcases mem_snoc.mp hmem with hmem | hmem
          · obtain ⟨pre, post, hsplit⟩ := append_of_mem hmem
            rw [hsplit]
            exact mem_append_left _ (hs.greedy.deps_before hsplit x hxi)
          · rw [hmem] at hxi
            exact hready.2.2 x hxi
        exact hready.2.1 hxo
    · rintro ⟨hi, hnot, hall⟩
      have hnot' : i ∉ s.order ∧ i ≠ x := by simpa using hnot
      have h0 := (hzero i hi).mp hall
      by_cases hxi : x ∈ deps i
      · exact .inr ⟨⟨hi, hxi⟩, by simpa [hxi] using h0⟩
      · rw [if_neg hxi] at h0
        exact .inl ⟨hnot'.2, hi, hnot'.1, (hzero' i hi).mpr h0⟩
  · rw [hnew]
    refine nodup_append.mpr ⟨hs.nodup.erase _, hdependents.filter _, ?_⟩
    rintro i hi j hj rfl
    have hri := (hs.ready i).mp (mem_of_mem_erase hi)
    have hxi := ((hmemdep i).mp (mem_filter.mp hj).1).2
    exact hready.2.1 (hri.2.2 x hxi)
  · rw [horder]
    exact hs.greedy.concat hready hleast

section Place

variable (hnodes : nodes.Nodup) (hdeps : ∀ i ∈ nodes, (deps i).Nodup)
include hnodes hdeps

theorem place_spec : Greedy nodes deps (place nodes deps) ∧
    Maximal nodes deps (place nodes deps) := by
  have hlen : ∀ s, Inv nodes deps s → s.order.length ≤ nodes.length := fun s hs =>
    (subperm_of_subset hs.greedy.nodup fun _ h => hs.greedy.mem_nodes h).length_le
  obtain ⟨hinv, hend⟩ := Loop.run_spec (step nodes deps) (Inv nodes deps)
    (fun s => nodes.length - s.order.length)
    (fun s s' hs h => by
      obtain ⟨hs', hl⟩ := step_inv hnodes hdeps hs h
      have := hlen s' hs'
      exact ⟨hs', by omega⟩)
    nodes.length (init nodes deps) (init_inv hnodes) (Nat.sub_le _ _)
  refine ⟨hinv.greedy, fun i hi => ?_⟩
  have hmem := (hinv.ready i).mpr hi
  rw [ready_of_step_eq_none hend] at hmem
  cases hmem

/-- **The order has every node once.** -/
theorem order_perm : (order nodes deps).Perm nodes := by
  obtain ⟨hgreedy, -⟩ := place_spec hnodes hdeps
  have hnodup : (order nodes deps).Nodup := by
    refine nodup_append.mpr ⟨hgreedy.nodup, hnodes.filter _, ?_⟩
    rintro i hi j hj rfl
    simp [hi] at hj
  refine (perm_ext_iff_of_nodup hnodup hnodes).mpr fun i => ?_
  simp only [order, mem_append, mem_filter, decide_not, Bool.not_eq_eq_eq_not,
    Bool.not_true, decide_eq_false_iff_not]
  by_cases hi : i ∈ place nodes deps
  · simp [hi, hgreedy.mem_nodes hi]
  · simp [hi]

/-- Without cycles nothing is held back. -/
theorem order_eq_place (rank : ℕ → ℕ)
    (hrank : ∀ i ∈ nodes, ∀ d ∈ deps i, d ∈ nodes ∧ rank d < rank i) :
    order nodes deps = place nodes deps := by
  have hall : ∀ i ∈ nodes, i ∈ place nodes deps := fun i hi =>
    mem_of_maximal (place_spec hnodes hdeps).2 rank hrank hi
  unfold order
  rw [filter_eq_nil_iff.mpr, append_nil]
  intro i hi
  simpa using hall i hi

end Place

end Kahn
