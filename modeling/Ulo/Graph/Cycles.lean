import Ulo.Graph.Resolve
import Ulo.Lib.Tarjan

/-!
# Dependency cycles

A binding waits for what its construction and its readiness check read.
`dependencyCycles` looks for cycles of that relation by its strongly connected
components, and reports each with the shortest cycle through its first member.
A pass without errors leaves the relation acyclic, which is what every later
recursion over dependencies rests on: `acyclic_of_no_cycles` gives a rank that
falls along every dependency.
-/

namespace Ulo

/-- `self_imports`: a module that imports itself. -/
def selfImports (r : Registry) (names : List ModuleName) : List WiringError :=
  r.selfImports.filterMap fun node =>
    names[node]?.map fun name => .importCycle [name, name]

/-- What a binding waits for: its construction's reads and its readiness
check's. -/
def waitsFor (g : Graph) (id : BindingId) : List BindingId :=
  g.constructionDeps id ++ g.readinessDeps id

/-- The successor table of the bindings. -/
def successors (g : Graph) : List (List BindingId) :=
  (List.range g.bindings.length).map (waitsFor g)

/-- `strongly_connected`: the components of a successor table. -/
def stronglyConnected (succ : List (List ℕ)) : List (List ℕ) := Tarjan.components succ

/-- The state of the search for a cycle. -/
structure CycleSearch where
  queue : List ℕ
  parent : Map ℕ ℕ := ∅
  found : Option (List ℕ) := none

/-- The way back from `current` to `start`, the last step first. -/
def traceBack (parent : Map ℕ ℕ) (start : ℕ) : ℕ → ℕ → List ℕ
  | 0, current => [current]
  | fuel + 1, current =>
    if current = start then [current]
    else
      match parent.lookup current with
      | some previous => current :: traceBack parent start fuel previous
      | none => [current]

/-- One successor of `node` in the search: outside of the component it is
ignored, the start closes the cycle, any other is queued once. -/
def searchSuccessor (component : List ℕ) (start node : ℕ) (s : CycleSearch)
    (successor : ℕ) : CycleSearch :=
  if s.found.isSome ∨ successor ∉ component then s
  else if successor = start then
    let back := traceBack s.parent start component.length node
    { s with found := some (back.reverse ++ [start]) }
  else if successor ∈ s.parent then s
  else { s with queue := s.queue ++ [successor]
                parent := s.parent.insert successor node }

/-- One iteration of the search: the front of the queue is expanded. -/
def searchStep (succ : List (List ℕ)) (component : List ℕ) (start : ℕ)
    (s : CycleSearch) : Option CycleSearch :=
  if s.found.isSome then none
  else
    match s.queue with
    | [] => none
    | node :: queue =>
      some ((succ.getD node []).foldl (searchSuccessor component start node)
        { s with queue := queue })

/-- **`cycle_through`**: a shortest cycle through the smallest member of a
component. -/
def cycleThrough (succ : List (List ℕ)) (component : List ℕ) : List ℕ :=
  match component.min? with
  | none => []
  | some start =>
    let s := Loop.run (searchStep succ component start) (component.length + 1)
      { queue := [start] }
    s.found.getD [start, start]

/-- Whether a component holds a cycle. -/
def isCyclic (succ : List (List ℕ)) (component : List ℕ) : Bool :=
  1 < component.length ||
    match component.head? with
    | some only => (succ.getD only []).contains only
    | none => false

/-- **`dependency_cycles`**: one error for each cyclic component. -/
def dependencyCycles (g : Graph) : List WiringError :=
  ((stronglyConnected (successors g)).filter (isCyclic (successors g))).map fun component =>
    .cycle ((cycleThrough (successors g) component).map fun id =>
      (g.keyName id, g.moduleName (g.binding id).origin))

/-! ## Without cycles -/

/-- **The dependencies of the graph are acyclic**: a rank falls along each. -/
def Acyclic (g : Graph) : Prop :=
  ∃ rank : BindingId → ℕ, ∀ id < g.bindings.length, ∀ dep ∈ waitsFor g id,
    dep < g.bindings.length → rank dep < rank id

theorem successors_length (g : Graph) : (successors g).length = g.bindings.length := by
  simp [successors]

theorem successors_getD (g : Graph) {id : BindingId} (h : id < g.bindings.length) :
    (successors g).getD id [] = waitsFor g id := by
  simp [successors, List.getD, h]

/-- **A pass that reports no cycle leaves an acyclic graph.** -/
theorem acyclic_of_no_cycles (g : Graph) (h : dependencyCycles g = []) : Acyclic g := by
  have hnone : ∀ c ∈ Tarjan.components (successors g),
      ¬ isCyclic (successors g) c = true := by
    simpa [dependencyCycles, stronglyConnected] using h
  have htrivial : ∀ c ∈ Tarjan.components (successors g),
      c.length ≤ 1 ∧ ∀ u ∈ c, u ∉ Tarjan.next (successors g) u := by
    intro c hc
    have hcyclic := hnone c hc
    match c, hcyclic with
    | [], _ => simp
    | [u], hcyclic => simpa [isCyclic, Tarjan.next] using hcyclic
    | _ :: _ :: _, hcyclic => simp [isCyclic] at hcyclic
  refine ⟨Tarjan.rank (successors g), fun id hid dep hdep hlt => ?_⟩
  refine Tarjan.rank_lt_of_edge htrivial (by rwa [successors_length]) ⟨?_, ?_⟩
  · rw [Tarjan.next, successors_getD g hid]
    exact hdep
  · rwa [successors_length]

end Ulo
