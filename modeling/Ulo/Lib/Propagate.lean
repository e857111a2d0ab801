import Mathlib.Data.List.Perm.Subperm
import Ulo.Lib.List
import Ulo.Lib.Loop

/-!
# Propagating a mark along a relation

A worklist marks nodes. A node is marked once, and when it hands the mark on it
is queued; taking a node off the queue marks what follows it. Started from a
list of roots this computes the least set that holds the roots and is closed
under `follows` out of the nodes that hand on (`Propagate.mem_run`): a
reachability search is the case in which all nodes hand on.
-/

namespace Propagate

open List

variable {α : Type} [DecidableEq α]

/-- The marked nodes and the queue, front first. -/
structure State (α : Type) where
  marked : List α := []
  queue : List α := []

/-- Marks a node, and queues it if it is new and hands the mark on. -/
def mark (hands : α → Bool) (s : State α) (a : α) : State α :=
  if a ∈ s.marked then s
  else { marked := s.marked ++ [a]
         queue := if hands a then s.queue ++ [a] else s.queue }

/-- One iteration: the front of the queue marks what follows it. -/
def step (follows : α → List α) (hands : α → Bool) (s : State α) : Option (State α) :=
  match s.queue with
  | [] => none
  | a :: queue => some ((follows a).foldl (mark hands) { s with queue := queue })

/-- The search from `roots`, with one iteration for each node of `univ`. -/
def run (univ : List α) (follows : α → List α) (hands : α → Bool) (roots : List α) :
    State α :=
  Loop.run (step follows hands) univ.length (roots.foldl (mark hands) {})

/-- **The least marking**: the roots, and what follows a marked node that hands
the mark on. -/
inductive Marked (follows : α → List α) (hands : α → Bool) (roots : List α) : α → Prop
  | root {a : α} (h : a ∈ roots) : Marked follows hands roots a
  | follow {a b : α} (ha : Marked follows hands roots a) (hands_on : hands a = true)
      (hb : b ∈ follows a) : Marked follows hands roots b

section Spec

variable {follows : α → List α} {hands : α → Bool} {roots univ l : List α} {s : State α} {b a : α}

theorem mem_mark : b ∈ (mark hands s a).marked ↔ b ∈ s.marked ∨ b = a := by
  unfold mark
  split
  · rename_i h
    exact ⟨.inl, fun hb => hb.elim id fun hba => hba ▸ h⟩
  · simp

theorem mem_foldl_mark : b ∈ (l.foldl (mark hands) s).marked ↔ b ∈ s.marked ∨ b ∈ l := by
  induction l generalizing s with
  | nil => simp
  | cons a l ih =>
    rw [foldl_cons, ih, mem_mark, mem_cons]
    tauto

theorem mem_queue_mark :
    b ∈ (mark hands s a).queue ↔ b ∈ s.queue ∨ (b = a ∧ a ∉ s.marked ∧ hands a = true) := by
  unfold mark
  split
  · simp [*]
  · cases h : hands a <;> simp [*]

variable (hands) in
/-- A node enters the queue only when it is marked for the first time. -/
theorem mark_length (s : State α) (a : α) :
    (mark hands s a).queue.length + s.marked.length
      ≤ s.queue.length + (mark hands s a).marked.length := by
  unfold mark
  split
  · exact Nat.le_refl _
  · cases hands a <;> simp; omega

variable (hands) in
theorem foldl_mark_length (l : List α) (s : State α) :
    (l.foldl (mark hands) s).queue.length + s.marked.length
      ≤ s.queue.length + (l.foldl (mark hands) s).marked.length := by
  induction l generalizing s with
  | nil => exact Nat.le_refl _
  | cons a l ih =>
    have hhead := mark_length hands s a
    have htail := ih (mark hands s a)
    rw [foldl_cons]
    omega

/-- **The invariant**: what is marked belongs to the least marking, what is
queued is marked and hands on, and a marked node that hands on is queued or has
marked what follows it. The node `c` being expanded is exempt from the last. -/
structure Inv (follows : α → List α) (hands : α → Bool) (roots univ : List α)
    (c : Option α) (s : State α) : Prop where
  sound : ∀ a ∈ s.marked, Marked follows hands roots a
  queued : ∀ a ∈ s.queue, a ∈ s.marked ∧ hands a = true
  pending : ∀ a ∈ s.marked, hands a = true →
    some a = c ∨ a ∈ s.queue ∨ ∀ b ∈ follows a, b ∈ s.marked
  nodup : s.marked.Nodup
  bound : ∀ a ∈ s.marked, a ∈ univ

theorem mark_inv {c : Option α} (hs : Inv follows hands roots univ c s)
    (hb : Marked follows hands roots b) (hu : b ∈ univ) :
    Inv follows hands roots univ c (mark hands s b) := by
  refine ⟨fun a ha => ?_, fun a ha => ?_, fun a ha hhands => ?_, ?_, fun a ha => ?_⟩
  · rcases mem_mark.mp ha with ha | rfl
    · exact hs.sound a ha
    · exact hb
  · rcases mem_queue_mark.mp ha with ha | ⟨rfl, -, hhands⟩
    · exact ⟨mem_mark.mpr (.inl (hs.queued a ha).1), (hs.queued a ha).2⟩
    · exact ⟨mem_mark.mpr (.inr rfl), hhands⟩
  · by_cases hold : a ∈ s.marked
    · rcases hs.pending a hold hhands with h | h | h
      · exact .inl h
      · exact .inr (.inl (mem_queue_mark.mpr (.inl h)))
      · exact .inr (.inr fun x hx => mem_mark.mpr (.inl (h x hx)))
    · have hab : a = b := (mem_mark.mp ha).resolve_left hold
      exact .inr (.inl (mem_queue_mark.mpr (.inr ⟨hab, hab ▸ hold, hab ▸ hhands⟩)))
  · unfold mark
    split
    · exact hs.nodup
    · rename_i hnew
      exact hs.nodup.snoc fun x hx heq => hnew (heq ▸ hx)
  · rcases mem_mark.mp ha with ha | rfl
    · exact hs.bound a ha
    · exact hu

theorem foldl_mark_inv {c : Option α} (hs : Inv follows hands roots univ c s)
    (hl : ∀ b ∈ l, Marked follows hands roots b ∧ b ∈ univ) :
    Inv follows hands roots univ c (l.foldl (mark hands) s) :=
  foldlRecOn l _ hs fun _ hs b hb => mark_inv hs (hl b hb).1 (hl b hb).2

/-- **One iteration** keeps the invariant and the roots, and lowers the measure. -/
theorem step_inv (hfollows : ∀ a ∈ univ, ∀ b ∈ follows a, b ∈ univ) {s' : State α}
    (hs : Inv follows hands roots univ none s) (h : step follows hands s = some s') :
    Inv follows hands roots univ none s' ∧ (∀ a ∈ s.marked, a ∈ s'.marked) ∧
      s'.queue.length + s.marked.length < s.queue.length + s'.marked.length := by
  unfold step at h
  split at h
  · cases h
  rename_i a queue hqueue
  cases h
  obtain ⟨hmarked, hhands⟩ := hs.queued a (by simp [hqueue])
  -- off the queue, `a` is the node being expanded
  have hpop : Inv follows hands roots univ (some a) { s with queue := queue } := by
    refine ⟨hs.sound, fun b hb => hs.queued b (by simp [hqueue, hb]), fun b hb hh => ?_,
      hs.nodup, hs.bound⟩
    rcases hs.pending b hb hh with h | h | h
    · cases h
    · rw [hqueue] at h
      rcases mem_cons.mp h with rfl | h
      · exact .inl rfl
      · exact .inr (.inl h)
    · exact .inr (.inr h)
  have hall := foldl_mark_inv hpop (l := follows a) fun b hb =>
    ⟨.follow (hs.sound a hmarked) hhands hb, hfollows a (hs.bound a hmarked) b hb⟩
  refine ⟨⟨hall.sound, hall.queued, fun b hb hh => ?_, hall.nodup, hall.bound⟩,
    fun b hb => mem_foldl_mark.mpr (.inl hb), ?_⟩
  · rcases hall.pending b hb hh with h | h | h
    · cases h
      exact .inr (.inr fun x hx => mem_foldl_mark.mpr (.inr hx))
    · exact .inr (.inl h)
    · exact .inr (.inr h)
  · have := foldl_mark_length hands (follows a) { s with queue := queue }
    simp only [hqueue, length_cons] at this ⊢
    omega

/-- **The search marks exactly the least marking.** -/
theorem mem_run (hroots : ∀ a ∈ roots, a ∈ univ)
    (hfollows : ∀ a ∈ univ, ∀ b ∈ follows a, b ∈ univ) (a : α) :
    a ∈ (run univ follows hands roots).marked ↔ Marked follows hands roots a := by
  have hempty : Inv follows hands roots univ none {} :=
    ⟨by simp, by simp, by simp, nodup_nil, by simp⟩
  have hstart := foldl_mark_inv hempty (l := roots) fun b hb => ⟨.root hb, hroots b hb⟩
  have hlen := foldl_mark_length hands roots {}
  have hmax : ∀ s, Inv follows hands roots univ none s → s.marked.length ≤ univ.length :=
    fun s hs => (subperm_of_subset hs.nodup hs.bound).length_le
  obtain ⟨⟨hinv, hkeep⟩, hend⟩ := Loop.run_spec (step follows hands)
    (fun s => Inv follows hands roots univ none s ∧ ∀ b ∈ roots, b ∈ s.marked)
    (fun s => s.queue.length + univ.length - s.marked.length)
    (fun s s' hs h => by
      obtain ⟨hinv, hmono, hlt⟩ := step_inv hfollows hs.1 h
      have := hmax s hs.1
      have := hmax s' hinv
      exact ⟨⟨hinv, fun b hb => hmono b (hs.2 b hb)⟩, by omega⟩)
    univ.length (roots.foldl (mark hands) {})
    ⟨hstart, fun b hb => mem_foldl_mark.mpr (.inr hb)⟩
    (by simp only [length_nil] at hlen; omega)
  have hqueue : (run univ follows hands roots).queue = [] := by
    unfold step at hend
    split at hend
    · assumption
    · cases hend
  refine ⟨hinv.sound a, fun h => ?_⟩
  induction h with
  | root h => exact hkeep _ h
  | @follow c d _ hhands hd ih =>
    rcases hinv.pending c ih hhands with h | h | h
    · cases h
    · rw [run] at hqueue
      rw [hqueue] at h
      cases h
    · exact h d hd

end Spec

end Propagate
