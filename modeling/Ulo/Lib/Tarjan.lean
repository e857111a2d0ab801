import Mathlib.Algebra.GroupWithZero.Nat
import Mathlib.Algebra.Order.BigOperators.Group.List
import Mathlib.Algebra.Order.Group.Nat
import Ulo.Lib.Loop

/-!
# Strongly connected components

Tarjan's algorithm over a successor table, with the recursion unrolled into a
stack of call frames. A node is visited once and gets the next index; it stays
on the node stack until the component it belongs to is complete, which is when
a call returns with its low link equal to its own index.

The invariant (`Tarjan.Shape`) follows the two stacks together. The node stack
is cut into one **segment** for each call frame: the frame's node, and above
it the nodes whose calls returned inside of it and that wait for their
component. All edges explored from a segment lead to finished components or to
nodes whose index the frame's low link does not exceed, so when a frame returns
with the low link of its own index no edge of its segment leads below it, and
the segment is a component closed under successors.

`Tarjan.components_perm` and `Tarjan.components_closed` are what a user of the
components needs to see that there are no cycles: they partition the nodes, and
successors lie in the same component or in an earlier one.
-/

namespace Tarjan

open List Function

/-- The state of the walk. Stacks have their top first. -/
structure State where
  index : ℕ → Option ℕ := fun _ => none
  low : ℕ → ℕ := fun _ => 0
  onStack : ℕ → Bool := fun _ => false
  stack : List ℕ := []
  components : List (List ℕ) := []
  next : ℕ := 0
  /-- Each frame is a node and the position of its next successor. -/
  calls : List (ℕ × ℕ) := []

/-- Opens the call of a node not visited before. -/
def State.visit (s : State) (node : ℕ) : State :=
  { s with
    index := Function.update s.index node (some s.next)
    low := Function.update s.low node s.next
    onStack := Function.update s.onStack node true
    stack := node :: s.stack
    next := s.next + 1
    calls := (node, 0) :: s.calls }

/-- Pops a stack down to `node`: what was popped, and what is left. -/
def popTo (node : ℕ) : List ℕ → List ℕ × List ℕ
  | [] => ([], [])
  | member :: rest =>
    if member = node then ([member], rest)
    else (member :: (popTo node rest).1, (popTo node rest).2)

variable (succ : List (List ℕ))

/-- The successors of a node. -/
def next (node : ℕ) : List ℕ := succ.getD node []

/-- Follows the next edge of the top frame. -/
def State.follow (s : State) (node successor : ℕ) : State :=
  if succ.length ≤ successor then s
  else
    match s.index successor with
    | none => s.visit successor
    | some i =>
      if s.onStack successor then
        { s with low := Function.update s.low node (min (s.low node) i) }
      else s

/-- Hands the low link of a returning call to its caller. -/
def State.propagate (s : State) (node : ℕ) : State :=
  match s.calls with
  | (parent, _) :: _ =>
    { s with low := Function.update s.low parent (min (s.low parent) (s.low node)) }
  | [] => s

/-- Takes the component of `node` off the stack, if it is complete. -/
def State.close (s : State) (node : ℕ) : State :=
  if s.index node = some (s.low node) then
    let (component, rest) := popTo node s.stack
    { s with
      onStack := fun v => if v ∈ component then false else s.onStack v
      stack := rest
      components := s.components ++ [component] }
  else s

/-- One iteration: the top frame follows its next edge, or returns. -/
def step (s : State) : Option State :=
  match s.calls with
  | [] => none
  | (node, position) :: rest =>
    match (next succ node)[position]? with
    | some successor =>
      some ({ s with calls := (node, position + 1) :: rest }.follow succ node successor)
    | none => some (({ s with calls := rest }.propagate node).close node)

/-- One iteration for each edge of a node and one for its return. -/
def cost (node : ℕ) : ℕ := (next succ node).length + 1

/-- The walk from one root, unless it is visited already. The bound is the
cost of all nodes. -/
def walk (s : State) (root : ℕ) : State :=
  match s.index root with
  | some _ => s
  | none =>
    Loop.run (step succ) ((List.range succ.length).map (cost succ)).sum (s.visit root)

/-- The state after all roots. -/
def final : State := (List.range succ.length).foldl (walk succ) {}

/-- **The strongly connected components**, in the order they are completed. -/
def components : List (List ℕ) := (final succ).components

/-! ## The invariant -/

/-- `v` is a successor of `u`; a number that is no node is ignored. -/
def Edge (u v : ℕ) : Prop := v ∈ next succ u ∧ v < succ.length

/-- The index of a visited node. -/
def State.idx (s : State) (v : ℕ) : ℕ := (s.index v).getD 0

/-- What an explored edge to `x` from the segment of the frame `c` leads to: a
finished component, or a node the low link of `c` does not exceed. -/
def Seen (s : State) (c x : ℕ) : Prop :=
  x < succ.length →
    x ∈ s.components.flatten ∨ ((s.index x).isSome ∧ s.low c ≤ s.idx x)

/-- **The call frames and the segments of the node stack.** The segment of the
frame `c` is `F ++ [c]`. -/
inductive Shape (s : State) : List (ℕ × ℕ) → List ℕ → Prop
  | nil : Shape s [] []
  | cons {c p : ℕ} {calls : List (ℕ × ℕ)} {F stack : List ℕ}
      (below : Shape s calls stack)
      (low_le : s.low c ≤ s.idx c)
      (lowest : ∃ y ∈ F ++ c :: stack, s.idx y = s.low c)
      (explored : ∀ x ∈ (next succ c).take p, Seen succ s c x)
      (finished : ∀ w ∈ F, ∀ x ∈ next succ w, Seen succ s c x) :
      Shape s ((c, p) :: calls) (F ++ c :: stack)

/-- Successors lie in the same component or in an earlier one. -/
def Closed (components : List (List ℕ)) : Prop :=
  ∀ pre c post, components = pre ++ c :: post →
    ∀ u ∈ c, ∀ x, Edge succ u x → x ∈ pre.flatten ∨ x ∈ c

/-- The part of the invariant that does not read the frames. -/
structure Core (s : State) : Prop where
  sorted : s.stack.Pairwise fun a b => s.idx b < s.idx a
  visited : ∀ v, (s.index v).isSome ↔ v ∈ s.stack ∨ v ∈ s.components.flatten
  fresh : ∀ v, (s.index v).isSome → s.idx v < s.next
  onStack : ∀ v, s.onStack v = true ↔ v ∈ s.stack
  nodup : (s.stack ++ s.components.flatten).Nodup
  bound : ∀ v, (s.index v).isSome → v < succ.length
  closed : Closed succ s.components

/-- **The invariant of the walk.** -/
structure Inv (s : State) : Prop extends Core succ s where
  shape : Shape succ s s.calls s.stack

variable {succ} {s s' : State} {x node p : ℕ} {stack F : List ℕ} {rest calls : List (ℕ × ℕ)} {x : ℕ}

theorem Seen.mono {c : ℕ} (h : Seen succ s c x)
    (hcomp : ∀ v ∈ s.components.flatten, v ∈ s'.components.flatten)
    (hindex : ∀ v, (s.index v).isSome → s'.index v = s.index v) (hlow : s'.low c ≤ s.low c) :
    Seen succ s' c x := by
  intro hx
  rcases h hx with hc | ⟨hv, hle⟩
  · exact .inl (hcomp x hc)
  · refine .inr ⟨(hindex x hv).symm ▸ hv, ?_⟩
    rw [State.idx, hindex x hv]
    exact Nat.le_trans hlow hle

/-- **Frames below the top keep their shape** when components are added, nodes
are visited, and low links change outside of their part of the stack. -/
theorem Shape.transport (h : Shape succ s calls stack)
    (hcomp : ∀ v ∈ s.components.flatten, v ∈ s'.components.flatten)
    (hindex : ∀ v, (s.index v).isSome → s'.index v = s.index v)
    (hstack : ∀ v ∈ stack, (s.index v).isSome ∧ s'.low v = s.low v) :
    Shape succ s' calls stack := by
  induction h with
  | nil => exact .nil
  | @cons c p calls F stack below low_le lowest explored finished ih =>
    have hidx : ∀ v ∈ F ++ c :: stack, s'.idx v = s.idx v := fun v hv => by
      rw [State.idx, hindex v (hstack v hv).1, State.idx]
    have hc : c ∈ F ++ c :: stack := by simp
    have hlow : s'.low c = s.low c := (hstack c hc).2
    refine .cons (ih fun v hv => hstack v (by simp [hv])) ?_ ?_ ?_ ?_
    · rw [hlow, hidx c hc]
      exact low_le
    · obtain ⟨y, hy, hyl⟩ := lowest
      exact ⟨y, hy, by rw [hidx y hy, hlow, hyl]⟩
    · exact fun x hx => (explored x hx).mono hcomp hindex hlow.le
    · exact fun w hw x hx => (finished w hw x hx).mono hcomp hindex hlow.le

section

variable (h : Shape succ s ((node, p) :: rest) stack)
include h

/-- The top frame moves past an edge that was seen. -/
theorem Shape.advance (hx : (next succ node)[p]? = some x) (hseen : Seen succ s node x) :
    Shape succ s ((node, p + 1) :: rest) stack := by
  cases h with
  | cons below low_le lowest explored finished =>
    refine .cons below low_le lowest (fun y hy => ?_) finished
    rw [take_add_one, hx] at hy
    rcases mem_append.mp hy with hy | hy
    · exact explored y hy
    · rw [show y = x by simpa using hy]
      exact hseen

/-- The top frame takes a smaller low link, that of a node it reaches on the
stack. -/
theorem Shape.lower {l : ℕ} (hnodup : stack.Nodup) (hstack : ∀ v ∈ stack, (s.index v).isSome)
    (hcomp : s'.components = s.components) (hindex : s'.index = s.index)
    (hlow : s'.low = Function.update s.low node l) (hl : l ≤ s.low node)
    (hlowest : l = s.low node ∨ ∃ y ∈ stack, s.idx y = l) :
    Shape succ s' ((node, p) :: rest) stack := by
  have hself : s'.low node = l := by rw [hlow, update_self]
  have hidx : s'.idx = s.idx := by funext v; rw [State.idx, hindex, State.idx]
  have hcomp' : ∀ v ∈ s.components.flatten, v ∈ s'.components.flatten := by simp [hcomp]
  have hmono : ∀ x, Seen succ s node x → Seen succ s' node x := fun x hx =>
    hx.mono hcomp' (fun v _ => by rw [hindex]) (by rw [hself]; exact hl)
  cases h with
  | @cons _ _ _ F stack below low_le lowest explored finished =>
    have hbelow : node ∉ stack :=
      (nodup_cons.mp (nodup_append.mp hnodup).2.1).1
    refine .cons (below.transport hcomp' (fun v _ => by rw [hindex]) fun v hv =>
        ⟨hstack v (by simp [hv]), ?_⟩) ?_ ?_
        (fun x hx => hmono x (explored x hx)) (fun w hw x hx => hmono x (finished w hw x hx))
    · rw [hlow, update_of_ne]
      rintro rfl
      exact hbelow hv
    · rw [hself, hidx]
      exact hl.trans low_le
    · rw [hself, hidx]
      rcases hlowest with rfl | hlowest
      · exact lowest
      · exact hlowest

/-- The node of the top frame is on the stack. -/
theorem Shape.mem_stack : node ∈ stack := by
  cases h with
  | cons => simp

theorem Shape.low_le : s.low node ≤ s.idx node := by
  cases h with
  | cons _ low_le => exact low_le

end

section Steps

variable (hs : Core succ s)
include hs

theorem Core.stack_visited : ∀ v ∈ s.stack, (s.index v).isSome := fun v hv =>
  (hs.visited v).mpr (.inl hv)

theorem Core.stack_nodup : s.stack.Nodup := (nodup_append.mp hs.nodup).1

/-- The frames keep their shape when a new node is visited. -/
theorem Core.shape_visit (hnew : s.index x = none) (h : Shape succ s calls s.stack) :
    Shape succ (s.visit x) calls s.stack := by
  have hnv : ∀ v, (s.index v).isSome → v ≠ x := by
    rintro v hv rfl
    simp [hnew] at hv
  exact h.transport (fun _ h => h) (fun v hv => update_of_ne (hnv v hv) ..)
    fun v hv => ⟨hs.stack_visited v hv,
      update_of_ne (hnv v (hs.stack_visited v hv)) ..⟩

/-- **Visiting a new node** opens a frame with an empty segment. -/
theorem Core.visit (hx : x < succ.length) (hnew : s.index x = none)
    (hbelow : Shape succ (s.visit x) s.calls s.stack) : Inv succ (s.visit x) := by
  have hindex : ∀ v, v ≠ x → (s.visit x).index v = s.index v := fun v hv =>
    update_of_ne hv ..
  have hne : ∀ v, (s.index v).isSome → v ≠ x := by
    rintro v hv rfl
    simp [hnew] at hv
  have hidx : ∀ v, (s.index v).isSome → (s.visit x).idx v = s.idx v := fun v hv => by
    rw [State.idx, hindex v (hne v hv), State.idx]
  have hself : (s.visit x).index x = some s.next := update_self ..
  have hidx_self : (s.visit x).idx x = s.next := by rw [State.idx, hself]; rfl
  have hlow_self : (s.visit x).low x = s.next := update_self ..
  refine ⟨⟨?_, ?_, ?_, ?_, ?_, ?_, hs.closed⟩, ?_⟩
  · refine pairwise_cons.mpr ⟨fun v hv => ?_, ?_⟩
    · rw [hidx_self, hidx v (hs.stack_visited v hv)]
      exact hs.fresh v (hs.stack_visited v hv)
    · refine hs.sorted.imp_of_mem fun ha hb hlt => ?_
      rw [hidx _ (hs.stack_visited _ ha), hidx _ (hs.stack_visited _ hb)]
      exact hlt
  · intro v
    by_cases hv : v = x
    · subst hv
      simp [State.visit]
    · rw [hindex v hv, hs.visited]
      simp [State.visit, hv]
  · intro v hv
    by_cases hvx : v = x
    · rw [hvx, hidx_self]
      exact Nat.lt_succ_self _
    · rw [hindex v hvx] at hv
      rw [hidx v hv]
      exact Nat.lt_succ_of_lt (hs.fresh v hv)
  · intro v
    by_cases hv : v = x
    · subst hv
      simp [State.visit]
    · simp [State.visit, hv, hs.onStack]
  · refine nodup_cons.mpr ⟨fun hmem => ?_, hs.nodup⟩
    exact hne x ((hs.visited x).mpr (mem_append.mp hmem)) rfl
  · intro v hv
    by_cases hvx : v = x
    · exact hvx ▸ hx
    · exact hs.bound v (hindex v hvx ▸ hv)
  · exact .cons (F := []) hbelow (by rw [hidx_self, hlow_self])
      ⟨x, by simp, by rw [hidx_self, hlow_self]⟩ (fun _ h => by simp at h)
      (fun _ h => nomatch h)

/-- Frames and low links are not read by the core of the invariant. -/
theorem Core.reframe (calls : List (ℕ × ℕ)) (low : ℕ → ℕ) :
    Core succ { s with calls := calls, low := low } :=
  ⟨hs.sorted, hs.visited, hs.fresh, hs.onStack, hs.nodup, hs.bound, hs.closed⟩

end Steps

/-- **Following an edge keeps the invariant.** -/
theorem Inv.follow (hs : Inv succ s) (hcalls : s.calls = (node, p) :: rest)
    (hx : (next succ node)[p]? = some x) :
    Inv succ ({ s with calls := (node, p + 1) :: rest }.follow succ node x) := by
  have hshape : Shape succ s ((node, p) :: rest) s.stack := hcalls ▸ hs.shape
  -- an edge that adds no frame: the same links, or a lower one for the top
  have hstay : ∀ low, Shape succ { s with calls := (node, p + 1) :: rest, low := low }
      ((node, p) :: rest) s.stack →
      Seen succ { s with calls := (node, p + 1) :: rest, low := low } node x →
      Inv succ { s with calls := (node, p + 1) :: rest, low := low } := fun low h hseen =>
    ⟨hs.toCore.reframe _ low, h.advance hx hseen⟩
  have hsame : Shape succ { s with calls := (node, p + 1) :: rest }
      ((node, p) :: rest) s.stack :=
    hshape.transport (fun _ h => h) (fun _ _ => rfl) fun v hv => ⟨hs.stack_visited v hv, rfl⟩
  unfold State.follow
  split
  · exact hstay s.low hsame fun hlt => absurd hlt (by omega)
  rename_i hlt
  have hlt : x < succ.length := by omega
  split
  · -- an unvisited successor gets a frame of its own
    rename_i hnew
    have hcore := hs.toCore.reframe ((node, p + 1) :: rest) s.low
    refine hcore.visit hlt hnew ((hcore.shape_visit hnew hsame).advance hx fun _ =>
      .inr ⟨by simp [State.visit], ?_⟩)
    have hnode := hs.stack_visited node hshape.mem_stack
    have hne : node ≠ x := by
      rintro rfl
      rw [show s.index node = none from hnew] at hnode
      exact absurd hnode (by simp)
    have hlow := hshape.low_le
    have hfresh := hs.fresh node hnode
    simp only [State.visit, State.idx, update_self, update_of_ne hne, Option.getD_some]
    omega
  · rename_i i hi
    have hi : s.index x = some i := hi
    have hidx : s.idx x = i := by rw [State.idx, hi]; rfl
    split
    · -- a successor on the stack lowers the link of the top frame
      rename_i hon
      have hxs : x ∈ s.stack := (hs.onStack x).mp hon
      refine hstay _ (hshape.lower hs.stack_nodup hs.stack_visited rfl rfl rfl
        (Nat.min_le_left _ _) ?_) fun _ => .inr ⟨by simp [hi], ?_⟩
      · rcases Nat.le_total (s.low node) i with hle | hle
        · exact .inl (Nat.min_eq_left hle)
        · exact .inr ⟨x, hxs, by rw [hidx, Nat.min_eq_right hle]⟩
      · simp only [State.idx, hi, update_self, Option.getD_some]
        exact Nat.min_le_right _ _
    · -- a visited successor off the stack is in a finished component
      rename_i hoff
      refine hstay s.low hsame fun _ => .inl ?_
      have hvis := (hs.visited x).mp (by simp [hi])
      exact hvis.resolve_left fun h => hoff ((hs.onStack x).mpr h)

/-! ## Returning from a call -/

/-- Popping down to `node` takes what lies above it and the node itself. -/
theorem popTo_append (h : node ∉ F) : popTo node (F ++ node :: stack) = (F ++ [node], stack) := by
  induction F with
  | nil => simp [popTo]
  | cons m F ih =>
    rw [mem_cons, not_or] at h
    have hne : m ≠ node := fun hm => h.1 hm.symm
    simp [popTo, hne, ih h.2]

variable (succ) in
/-- The segment of the top frame, as the shape of the stacks gives it. -/
structure Segment (s : State) (node : ℕ) (rest : List (ℕ × ℕ)) (F stack : List ℕ) :
    Prop where
  split : s.stack = F ++ node :: stack
  below : Shape succ s rest stack
  low_le : s.low node ≤ s.idx node
  lowest : ∃ y ∈ F ++ node :: stack, s.idx y = s.low node
  seen : ∀ w ∈ F ++ [node], ∀ x ∈ next succ w, Seen succ s node x

/-- A frame at its last edge has explored all of its segment. -/
theorem Inv.segment (hs : Inv succ s) (hcalls : s.calls = (node, p) :: rest)
    (hend : (next succ node)[p]? = none) : ∃ F stack, Segment succ s node rest F stack := by
  have hshape : Shape succ s ((node, p) :: rest) s.stack := hcalls ▸ hs.shape
  generalize hstack : s.stack = stack at hshape
  cases hshape with
  | @cons _ _ _ F stack below low_le lowest explored finished =>
    refine ⟨F, stack, hstack, below, low_le, lowest, ?_⟩
    intro w hw x hx
    rcases mem_append.mp hw with hw | hw
    · exact finished w hw x hx
    · rw [mem_singleton.mp hw] at hx
      refine explored x ?_
      rwa [take_of_length_le (getElem?_eq_none_iff.mp hend)]

namespace Segment

variable {node : ℕ} {rest : List (ℕ × ℕ)} {F stack : List ℕ}
  (hseg : Segment succ s node rest F stack) (hs : Core succ s)
include hseg hs

theorem above : ∀ w ∈ F, s.idx node < s.idx w := by
  have hsorted := hs.sorted
  rw [hseg.split] at hsorted
  exact fun w hw => (pairwise_append.mp hsorted).2.2 w hw node mem_cons_self

theorem under : ∀ w ∈ stack, s.idx w < s.idx node := by
  have hsorted := hs.sorted
  rw [hseg.split] at hsorted
  exact (pairwise_cons.mp (pairwise_append.mp hsorted).2.1).1

/-- A node of the stack with no smaller index than the frame's is in the
segment. -/
theorem mem_of_le {y : ℕ} (hy : y ∈ F ++ node :: stack) (hle : s.idx node ≤ s.idx y) :
    y ∈ F ++ [node] := by
  simp only [mem_append, mem_cons, not_mem_nil, or_false] at hy ⊢
  rcases hy with hy | rfl | hy
  · exact .inl hy
  · exact .inr rfl
  · exact absurd (hseg.under hs y hy) (by omega)

theorem popTo_stack : popTo node s.stack = (F ++ [node], stack) := by
  rw [hseg.split]
  refine popTo_append fun hmem => ?_
  exact absurd (hseg.above hs node hmem) (by omega)

section

variable (hroot : s.low node = s.idx node)
include hroot

/-- **No edge leaves a complete component but to an earlier one.** -/
theorem closed {u : ℕ} (hu : u ∈ F ++ [node]) (hx : Edge succ u x) :
    x ∈ s.components.flatten ∨ x ∈ F ++ [node] := by
  rcases hseg.seen u hu x hx.1 hx.2 with hc | ⟨hv, hle⟩
  · exact .inl hc
  rcases (hs.visited x).mp hv with hmem | hc
  · rw [hseg.split] at hmem
    exact .inr (hseg.mem_of_le hs hmem (by omega))
  · exact .inl hc

/-- **A complete component leaves the stack**, and the frames below stay. -/
theorem pop : Inv succ { s with
      calls := rest
      onStack := fun v => if v ∈ F ++ [node] then false else s.onStack v
      stack := stack
      components := s.components ++ [F ++ [node]] } := by
  have hstack : s.stack = (F ++ [node]) ++ stack := by simp [hseg.split]
  have hflat : (s.components ++ [F ++ [node]]).flatten
      = s.components.flatten ++ (F ++ [node]) := by simp
  have hnodup := hs.nodup
  rw [hstack] at hnodup
  have hdisjoint : ∀ v ∈ F ++ [node], v ∉ stack := fun v hv hv' =>
    (nodup_append.mp (nodup_append.mp hnodup).1).2.2 v hv v hv' rfl
  refine ⟨⟨?_, ?_, hs.fresh, ?_, ?_, hs.bound, ?_⟩, ?_⟩
  · exact (pairwise_append.mp (hstack ▸ hs.sorted)).2.1
  · intro v
    rw [hs.visited v, hstack, hflat]
    simp only [mem_append]
    tauto
  · intro v
    by_cases hv : v ∈ F ++ [node]
    · simp only [hv, if_true, Bool.false_eq_true, false_iff]
      exact hdisjoint v hv
    · simp only [hv, if_false, hs.onStack, hstack, mem_append (s := F ++ [node]),
        false_or]
  · have hperm : (stack ++ (s.components.flatten ++ (F ++ [node]))).Perm
        (F ++ [node] ++ stack ++ s.components.flatten) := by
      rw [← append_assoc, append_assoc (F ++ [node])]
      exact perm_append_comm
    show (stack ++ (s.components ++ [F ++ [node]]).flatten).Nodup
    rw [hflat]
    exact hperm.nodup_iff.mpr hnodup
  · intro pre c post hsplit u hu x hx
    rcases eq_nil_or_concat post with rfl | ⟨post, last, rfl⟩
    · -- the new component
      obtain ⟨rfl, rfl⟩ : pre = s.components ∧ c = F ++ [node] := by
        have := append_inj' hsplit rfl
        exact ⟨this.1.symm, by simpa using this.2.symm⟩
      exact hseg.closed hs hroot hu hx
    · have hold : s.components = pre ++ c :: post := by
        have : s.components ++ [F ++ [node]] = (pre ++ c :: post) ++ [last] := by
          simpa using hsplit
        exact (append_inj' this rfl).1
      exact hs.closed pre c post hold u hu x hx
  · refine hseg.below.transport (fun v hv => ?_) (fun _ _ => rfl) fun v hv =>
      ⟨hs.stack_visited v (by simp [hstack, hv]), rfl⟩
    show v ∈ (s.components ++ [F ++ [node]]).flatten
    rw [hflat]
    exact mem_append_left _ hv

end

/-- A frame with no caller returns with its component complete. -/
theorem root_of_bottom (hrest : rest = []) : s.low node = s.idx node := by
  subst hrest
  have hbelow := hseg.below
  cases hbelow
  obtain ⟨y, hy, hyl⟩ := hseg.lowest
  have hle := hseg.low_le
  simp only [mem_append, mem_singleton] at hy
  rcases hy with hy | rfl
  · have := hseg.above hs y hy
    omega
  · omega

end Segment

/-- **A waiting segment joins that of its caller**, which takes the smaller of
the two low links. -/
theorem Segment.join {parent q : ℕ} (hseg : Segment succ s node ((parent, q) :: rest) F stack)
    (hs : Core succ s) (hcomp : s'.components = s.components) (hindex : s'.index = s.index)
    (hlow : s'.low = Function.update s.low parent (min (s.low parent) (s.low node))) :
    Shape succ s' ((parent, q) :: rest) s.stack := by
  have hbelow := hseg.below
  have hsplit := hseg.split
  have hnodup := hs.stack_nodup
  have hvisited := hs.stack_visited
  have hself : s'.low parent = min (s.low parent) (s.low node) := by
    rw [hlow, update_self]
  have hidx : s'.idx = s.idx := by funext v; rw [State.idx, hindex, State.idx]
  have hcomp' : ∀ v ∈ s.components.flatten, v ∈ s'.components.flatten := by simp [hcomp]
  cases hbelow with
  | @cons _ _ _ F' stack' below low_le lowest explored finished =>
    have hstack : s.stack = (F ++ node :: F') ++ parent :: stack' := by simp [hsplit]
    rw [hstack] at hnodup hvisited ⊢
    have hbelow : parent ∉ stack' :=
      (nodup_cons.mp (nodup_append.mp hnodup).2.1).1
    -- every edge of both segments respects the smaller link
    have hnode : ∀ x, Seen succ s node x → Seen succ s' parent x := fun x hx hlen => by
      rcases hx hlen with h | ⟨hv, hle⟩
      · exact .inl (hcomp' x h)
      · exact .inr ⟨hindex ▸ hv, by rw [hself, hidx]; omega⟩
    have hown : ∀ x, Seen succ s parent x → Seen succ s' parent x := fun x hx =>
      hx.mono hcomp' (fun v _ => by rw [hindex]) (by rw [hself]; omega)
    refine .cons (below.transport hcomp' (fun v _ => by rw [hindex]) fun v hv =>
        ⟨hvisited v (by simp [hv]), ?_⟩) ?_ ?_
        (fun x hx => hown x (explored x hx)) ?_
    · rw [hlow, update_of_ne]
      rintro rfl
      exact hbelow hv
    · rw [hself, hidx]
      omega
    · rw [hself, hidx]
      rcases Nat.le_total (s.low parent) (s.low node) with hle | hle
      · obtain ⟨y, hy, hyl⟩ := lowest
        exact ⟨y, by simp only [append_assoc, cons_append]; simp [hy], by omega⟩
      · obtain ⟨y, hy, hyl⟩ := hseg.lowest
        exact ⟨y, by simpa using hy, by omega⟩
    · intro w hw x hx
      rcases mem_append.mp hw with hw | hw
      · exact hnode x (hseg.seen w (by simp [hw]) x hx)
      · rcases mem_cons.mp hw with rfl | hw
        · exact hnode x (hseg.seen w (by simp) x hx)
        · exact hown x (finished w hw x hx)

theorem Core.index_node (hs : Core succ s) (h : node ∈ s.stack) :
    s.index node = some (s.idx node) := by
  obtain ⟨i, hi⟩ := Option.isSome_iff_exists.mp (hs.stack_visited node h)
  rw [State.idx, hi, Option.getD_some]

/-- **Returning from a call keeps the invariant.** -/
theorem Inv.return (hs : Inv succ s) (hcalls : s.calls = (node, p) :: rest)
    (hend : (next succ node)[p]? = none) :
    Inv succ (({ s with calls := rest }.propagate node).close node) := by
  obtain ⟨F, stack, hseg⟩ := hs.segment hcalls hend
  have hindex : s.index node = some (s.idx node) :=
    hs.index_node (by simp [hseg.split])
  have hpop : s.low node = s.idx node →
      Inv succ ({ s with calls := rest }.close node) := fun hroot => by
    rw [State.close, if_pos (show s.index node = some (s.low node) by rw [hindex, hroot])]
    simp only [hseg.popTo_stack hs.toCore]
    exact hseg.pop hs.toCore hroot
  cases rest with
  | nil => exact hpop (hseg.root_of_bottom hs.toCore rfl)
  | cons caller rest =>
    obtain ⟨parent, q⟩ := caller
    have hparent : s.idx parent < s.idx node :=
      hseg.under hs.toCore parent hseg.below.mem_stack
    have hne : node ≠ parent := by
      rintro rfl
      omega
    by_cases hroot : s.low node = s.idx node
    · -- the caller's own link is smaller already
      have hsame : update s.low parent (min (s.low parent) (s.low node))
          = s.low := by
        have := hseg.below.low_le
        rw [Nat.min_eq_left (by omega), update_eq_self]
      simp only [State.propagate, hsame]
      exact hpop hroot
    · have hlt : s.low node < s.idx node := lt_of_le_of_ne hseg.low_le hroot
      have hwait : ({ s with calls := (parent, q) :: rest }.propagate node).close node
          = { s with
              calls := (parent, q) :: rest
              low := update s.low parent (min (s.low parent) (s.low node)) } := by
        rw [State.close, if_neg]
        · rfl
        · simp only [State.propagate, update_of_ne hne, hindex, Option.some.injEq]
          omega
      rw [hwait]
      exact ⟨hs.toCore.reframe _ _, hseg.join hs.toCore rfl rfl rfl⟩

/-- **Every iteration keeps the invariant.** -/
theorem step_inv (hs : Inv succ s) (h : step succ s = some s') : Inv succ s' := by
  unfold step at h
  split at h
  · cases h
  rename_i hcalls
  split at h
  · rename_i hx
    cases h
    exact hs.follow hcalls hx
  · rename_i hend
    cases h
    exact hs.return hcalls hend

/-! ## The bound -/

variable (succ) in
/-- The nodes not visited yet. -/
def unvisited (s : State) : List ℕ :=
  (List.range succ.length).filter fun v => (s.index v).isNone

variable (succ) in
/-- What the open calls have left, and what the unvisited nodes will cost. -/
def remaining (s : State) : ℕ :=
  (s.calls.map fun f => (next succ f.1).length - f.2 + 1).sum
    + ((unvisited succ s).map (cost succ)).sum

theorem remaining_visit (hx : x < succ.length) (hnew : s.index x = none) :
    remaining succ (s.visit x) = remaining succ s := by
  have hmem : x ∈ unvisited succ s := by simp [unvisited, hx, hnew]
  have hnodup : (unvisited succ s).Nodup := nodup_range.filter _
  have herase : unvisited succ (s.visit x)
      = (unvisited succ s).erase x := by
    rw [hnodup.erase_eq_filter, unvisited, unvisited, filter_filter]
    refine filter_congr fun v _ => ?_
    by_cases hv : v = x
    · subst hv; simp [State.visit]
    · simp [State.visit, hv]
  have hsum := sum_map_erase (cost succ) hmem
  have hcost : cost succ x = (next succ x).length - 0 + 1 := rfl
  unfold remaining
  rw [herase, show (s.visit x).calls = (x, 0) :: s.calls from rfl, map_cons,
    sum_cons]
  dsimp only
  omega

theorem remaining_calls {t : State} (hindex : t.index = s.index) :
    remaining succ t = (t.calls.map fun f => (next succ f.1).length - f.2 + 1).sum
      + ((unvisited succ s).map (cost succ)).sum := by
  simp only [remaining, unvisited, hindex]

theorem step_remaining (h : step succ s = some s') :
    remaining succ s' < remaining succ s := by
  unfold step at h
  split at h
  · cases h
  rename_i node p rest hcalls
  have hs : remaining succ s
      = (next succ node).length - p + 1
        + (rest.map fun f => (next succ f.1).length - f.2 + 1).sum
        + ((unvisited succ s).map (cost succ)).sum := by
    rw [remaining_calls rfl, hcalls, map_cons, sum_cons]
  split at h
  · -- an edge less to follow, whatever it leads to
    rename_i hx
    cases h
    have hp := (List.getElem?_eq_some_iff.mp hx).1
    have hadvance : ∀ t : State, t.index = s.index → t.calls = (node, p + 1) :: rest →
        remaining succ t < remaining succ s := fun t hindex hc => by
      rw [remaining_calls hindex, hs, hc, map_cons, sum_cons]
      dsimp only
      omega
    unfold State.follow
    split
    · exact hadvance _ rfl rfl
    · split
      · rename_i hnew
        rw [remaining_visit (by omega) hnew]
        exact hadvance _ rfl rfl
      · split <;> exact hadvance _ rfl rfl
  · cases h
    have hreturn : ∀ t : State, t.index = s.index → t.calls = rest →
        remaining succ t < remaining succ s := fun t hindex hc => by
      rw [remaining_calls hindex, hs, hc]
      omega
    refine hreturn _ ?_ ?_ <;>
      (unfold State.close State.propagate; split <;> split <;> rfl)

/-! ## The components -/

theorem isSome_visit {v : ℕ} (h : (s.index v).isSome) : ((s.visit x).index v).isSome := by
  by_cases hv : v = x
  · simp [hv, State.visit]
  · simpa [State.visit, hv] using h

/-- A visited node stays visited. -/
theorem step_visited {v : ℕ} (h : step succ s = some s') (hv : (s.index v).isSome) :
    (s'.index v).isSome := by
  unfold step at h
  split at h
  · cases h
  split at h
  · cases h
    unfold State.follow
    split
    · exact hv
    · split
      · exact isSome_visit hv
      · split <;> exact hv
  · cases h
    unfold State.close State.propagate
    split <;> split <;> exact hv

/-- **A walk ends with no open call**, every node it visited in a component. -/
theorem walk_inv {root : ℕ} (hroot : root < succ.length) (hs : Inv succ s)
    (hcalls : s.calls = []) :
    Inv succ (walk succ s root) ∧ (walk succ s root).calls = [] ∧
      ((walk succ s root).index root).isSome ∧
      ∀ v, (s.index v).isSome → ((walk succ s root).index v).isSome := by
  unfold walk
  cases hindex : s.index root with
  | some => exact ⟨hs, hcalls, by simp [hindex], fun _ h => h⟩
  | none =>
    have hempty : s.stack = [] := by
      have hshape := hs.shape
      rw [hcalls] at hshape
      generalize s.stack = stack at hshape
      cases hshape
      rfl
    have hstart : Inv succ (s.visit root) := by
      refine hs.toCore.visit hroot hindex ?_
      rw [hcalls, hempty]
      exact .nil
    have hbound : remaining succ (s.visit root)
        ≤ ((range succ.length).map (cost succ)).sum := by
      rw [remaining_visit hroot hindex, remaining, hcalls]
      simp only [map_nil, sum_nil, Nat.zero_add]
      exact (filter_sublist.map _).sum_le_sum fun _ _ => Nat.zero_le _
    obtain ⟨⟨hinv, hmono⟩, hend⟩ := Loop.run_spec (step succ)
      (fun t => Inv succ t ∧ ∀ v, ((s.visit root).index v).isSome → (t.index v).isSome)
      (remaining succ)
      (fun t t' ht h => ⟨⟨step_inv ht.1 h, fun v hv => step_visited h (ht.2 v hv)⟩,
        step_remaining h⟩) _ (s.visit root) ⟨hstart, fun _ h => h⟩ hbound
    refine ⟨hinv, ?_, hmono root (by simp [State.visit]), fun v hv => hmono v (isSome_visit hv)⟩
    unfold step at hend
    split at hend
    · assumption
    · split at hend <;> cases hend

/-- **The state after all roots**: no call is open and every node is in a
component. -/
theorem final_inv :
    Inv succ (final succ) ∧ (final succ).calls = [] ∧
      ∀ v < succ.length, ((final succ).index v).isSome := by
  have hinit : Inv succ {} := by
    refine ⟨⟨by simp, by simp, by simp, by simp, by simp, by simp, ?_⟩, .nil⟩
    intro pre c post h
    simp at h
  suffices h : ∀ (roots : List ℕ) (s : State), (∀ r ∈ roots, r < succ.length) →
      Inv succ s → s.calls = [] →
      Inv succ (roots.foldl (walk succ) s) ∧ (roots.foldl (walk succ) s).calls = [] ∧
        (∀ r ∈ roots, ((roots.foldl (walk succ) s).index r).isSome) ∧
        ∀ v, (s.index v).isSome → ((roots.foldl (walk succ) s).index v).isSome by
    obtain ⟨hinv, hcalls, hall, -⟩ :=
      h (range succ.length) {} (fun r hr => mem_range.mp hr) hinit rfl
    exact ⟨hinv, hcalls, fun v hv => hall v (mem_range.mpr hv)⟩
  intro roots
  induction roots with
  | nil => exact fun s _ hs hc => ⟨hs, hc, fun _ h => (nomatch h), fun _ h => h⟩
  | cons root roots ih =>
    intro s hroots hs hc
    obtain ⟨hs', hc', hroot, hmono⟩ := walk_inv (hroots root mem_cons_self) hs hc
    obtain ⟨hinv, hcalls, hall, hkeep⟩ :=
      ih (walk succ s root) (fun r hr => hroots r (mem_cons_of_mem _ hr)) hs' hc'
    refine ⟨hinv, hcalls, fun r hr => ?_, fun v hv => hkeep v (hmono v hv)⟩
    rcases mem_cons.mp hr with rfl | hr
    · exact hkeep r hroot
    · exact hall r hr

/-- **The components partition the nodes.** -/
theorem components_perm : (components succ).flatten.Perm (List.range succ.length) := by
  obtain ⟨hinv, hcalls, hall⟩ : Inv succ (final succ) ∧ _ := final_inv
  have hempty : (final succ).stack = [] := by
    have hshape := hinv.shape
    rw [hcalls] at hshape
    generalize (final succ).stack = stack at hshape
    cases hshape
    rfl
  have hnodup := hinv.nodup
  rw [hempty, nil_append] at hnodup
  refine (perm_ext_iff_of_nodup hnodup nodup_range).mpr fun v => ?_
  have hvisited := hinv.visited v
  rw [hempty] at hvisited
  simp only [not_mem_nil, false_or] at hvisited
  rw [mem_range]
  exact ⟨fun h => hinv.bound v (hvisited.mpr h), fun h => hvisited.mp (hall v h)⟩

/-- **Successors lie in the same component or in an earlier one.** -/
theorem components_closed : Closed succ (components succ) := final_inv.1.closed

/-- The position of the component of a node. -/
def rank (succ : List (List ℕ)) (v : ℕ) : ℕ := (components succ).findIdx fun c => v ∈ c

/-- **Trivial components are acyclic**: when every component is one node without
an edge to itself, every edge leads to a node of smaller rank. -/
theorem rank_lt_of_edge
    (htrivial : ∀ c ∈ components succ, c.length ≤ 1 ∧ ∀ u ∈ c, u ∉ next succ u)
    {u v : ℕ} (hu : u < succ.length) (h : Edge succ u v) :
    rank succ v < rank succ u := by
  have hmem : u ∈ (components succ).flatten :=
    components_perm.mem_iff.mpr (mem_range.mpr hu)
  obtain ⟨c, hc, huc⟩ := mem_flatten.mp hmem
  have hlt : rank succ u < (components succ).length :=
    findIdx_lt_length_of_exists ⟨c, hc, by simpa using huc⟩
  -- the component of `u`, split off at its position
  have hget : u ∈ (components succ)[rank succ u] := by
    have := findIdx_getElem (p := fun c => decide (u ∈ c)) (w := hlt)
    exact of_decide_eq_true this
  have hsplit : components succ = (components succ).take (rank succ u)
      ++ (components succ)[rank succ u] :: (components succ).drop (rank succ u + 1) := by
    rw [getElem_cons_drop, take_append_drop]
  rcases components_closed _ _ _ hsplit u hget v h with hv | hv
  · obtain ⟨c', hc', hvc'⟩ := mem_flatten.mp hv
    obtain ⟨i, hi, rfl⟩ := mem_iff_getElem.mp hc'
    rw [length_take] at hi
    rw [getElem_take] at hvc'
    by_contra hge
    have hlater : i < (components succ).findIdx fun c => decide (v ∈ c) :=
      show i < rank succ v by omega
    have hfirst := not_of_lt_findIdx hlater
    simp [hvc'] at hfirst
  · -- the only node of the component would be its own successor
    obtain ⟨hlen, hself⟩ := htrivial _ (getElem_mem hlt)
    have huv : u = v := by
      obtain ⟨i, hi, hiu⟩ := mem_iff_getElem.mp hget
      obtain ⟨j, hj, hjv⟩ := mem_iff_getElem.mp hv
      have : i = j := by omega
      subst this
      exact hiu.symm.trans hjv
    exact absurd (huv ▸ h.1) (hself u hget)

end Tarjan
