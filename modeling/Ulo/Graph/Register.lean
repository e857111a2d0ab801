import Mathlib.Algebra.GroupWithZero.Nat
import Ulo.Graph.Error
import Ulo.Lib.Loop

/-!
# Registration

The registration walk calls `register` once for each identity and follows the
imports in the order written. A module is claimed before its imports are
walked, so an import that closes a cycle meets the node already claimed; what
is left of such an import is a comparison of the settings. A lazy load walks
the same way over the base graph, whose modules it never registers again, and
a test plan may put another module in an identity's place.

The nodes are then put into **collection order**: the post-order of the
imports from the first node, by an explicit stack of frames.

The walk goes one level deeper only by claiming a new identity, so a catalog
of `n` modules is walked to depth `n + 1`, which is the bound `reach` runs
with.
-/

namespace Ulo

open List

/-- Two sites of one module whose settings differ. -/
structure Differing where
  module : Import
  first : Site
  second : Site
  settings : List (String × Option String × Option String)
deriving DecidableEq, Inhabited

/-- The difference of two written settings, if there is one. -/
def Differing.of (module : Import) (first second : ModuleSettings × Site) :
    Option Differing :=
  let settings := first.1.differences second.1
  if settings.isEmpty then none else some ⟨module, first.2, second.2, settings⟩

/-- A replaced module: what it exported and the node in its place. -/
structure Replaced where
  original : ModuleIdentity
  exports : List Key
  replacement : ℕ
deriving DecidableEq, Inhabited

/-- **What the registration walk collects.** -/
structure Registry where
  nodes : List ModuleNode := []
  imports : List (List Import) := []
  postOrder : List ℕ := []
  selfImports : List ℕ := []
  replaced : List Replaced := []
  differing : List Differing := []
  repeats : List (Import × Repeat) := []

instance : Inhabited Registry := ⟨{}⟩

/-- `later_repeats`: the repeats of a later naming that the claiming one does
not have, each once. -/
def laterRepeats (repeats : List (Import × Repeat)) (module : Import)
    (claimed later : ModuleSettings) : List (Import × Repeat) :=
  later.repeats.foldl (fun acc r =>
    if claimed.repeats.contains r || acc.contains (module, r) then acc
    else acc ++ [(module, r)]) repeats

namespace Registry

/-- The node claimed for an identity. -/
def byIdentity (r : Registry) (identity : ModuleIdentity) : Option ℕ :=
  r.nodes.findIdx? (·.identity = identity)

/-- The node under an index. -/
def node (r : Registry) (index : ℕ) : ModuleNode := r.nodes.getD index default

/-- A module named again: its settings are compared with those it was first
named with. -/
def meet (r : Registry) (found : Import) (claimed later : ModuleSettings × Site) :
    Registry :=
  { r with
    differing := r.differing ++ (Differing.of found claimed later).toList
    repeats := laterRepeats r.repeats found claimed.1 later.1 }

/-- The qualifier of the nearest keyed node of the path, innermost first. -/
def inheritedKeyed (r : Registry) (path : List ℕ) : Option TypeId :=
  path.findSome? fun ancestor => (r.node ancestor).keyed

/-- `names`: a node's name counts the modules of its type and qualifier that
come before it, those of the base graph first. -/
def names (r : Registry) (base : Graph) : List ModuleName :=
  r.nodes.zipIdx.map fun (n, i) =>
    let same (other : ModuleIdentity) : Bool :=
      other.ty == n.identity.ty && other.qualifier == n.identity.qualifier
    if i ∈ r.postOrder then
      ⟨n.identity, (base.modules.countP fun m => same m.identity) +
        (r.postOrder.takeWhile (· ≠ i)).countP fun j => same (r.node j).identity⟩
    else ⟨n.identity, 0⟩

/-- The name of a node. -/
def nameOf (names : List ModuleName) (index : ℕ) : ModuleName :=
  names.getD index default

end Registry

section Walk

variable {n : ℕ}

/-- A walk below one node: the path to it, what is registered so far, and the
module named at a site. -/
abbrev Reach (n : ℕ) := List ℕ → Registry → Fin n → Site → Registry × Import

/-- Follows the imports of the node `index` in the order written. -/
def followImports (reach : Reach n) (path : List ℕ) (index : ℕ) (r : Registry)
    (imports : List (Fin n × Location)) : Registry :=
  imports.foldl (fun r (child, location) =>
    let (r, reached) := reach (index :: path) r child (.import_ (.new index) location)
    { r with imports := r.imports.modify index (· ++ [reached]) }) r

/-- `enter`: claims the identity and walks its imports, or meets the node
that has it. A module importing itself is one mistake, reported as such. -/
def enter (reach : Reach n) (path : List ℕ) (r : Registry) (m : ModuleDecl n)
    (site : Site) : Registry × Import :=
  match r.byIdentity m.identity with
  | some node =>
    if path.head? = some node then
      ({ r with selfImports := r.selfImports ++ [node] }, .new node)
    else
      (r.meet (.new node) ((r.node node).settings, (r.node node).site)
        (m.settings, site), .new node)
  | none =>
    let index := r.nodes.length
    let registration := m.register (r.inheritedKeyed path)
    let node : ModuleNode :=
      { registration.content with
        identity := m.identity, settings := m.settings, site := site }
    let r := { r with nodes := r.nodes ++ [node], imports := r.imports ++ [[]] }
    (followImports reach path index r registration.imports, .new index)

/-- What `replace` records of the original: its exports at its boundary. -/
def recordReplaced (r : Registry) (original : ModuleDecl n) (import_ : Import) :
    Registry :=
  match import_ with
  | .new node =>
    if r.replaced.any (·.original = original.identity) then r
    else
      let scratch := (original.register none).content
      { r with replaced := r.replaced ++
        [⟨original.identity, scratch.exports.map (boundaryKey scratch.keyed ·.key),
          node⟩] }
  | .existing _ => r

variable (cat : Catalog) (base : Option Graph) (plan : Option (TestPlan cat.size))

/-- **`Walk::reach`**: a module of the base graph is met, an identity the plan
replaces is entered as its replacement, any other is entered. -/
def reach : ℕ → Reach cat.size
  | 0, _, r, _, _ => (r, .new 0)
  | fuel + 1, path, r, m, site =>
    let decl := cat.module m
    match base.bind fun b => (b.byIdentity decl.identity).map fun id => (b, id) with
    | some (b, existing) =>
      (r.meet (.existing existing)
        ((b.module existing).settings, (b.module existing).site)
        (decl.settings, site), .existing existing)
    | none =>
      match plan.bind fun p => p.replacements.find? (·.original = decl.identity) with
      | some replacement =>
        let (r, import_) :=
          enter (reach fuel) path r (cat.module replacement.replacement) site
        (recordReplaced r decl import_, import_)
      | none => enter (reach fuel) path r decl site

end Walk

/-- One state of `collection_order`: the frames – a node and the position of
its next import –, the nodes entered and the order so far. -/
structure CollectionState where
  stack : List (ℕ × ℕ)
  visited : List ℕ
  order : List ℕ

/-- One iteration of `collection_order`: follow the next import of the top
frame, or place its node. -/
def collectionStep (r : Registry) (s : CollectionState) : Option CollectionState :=
  match s.stack with
  | [] => none
  | (node, next) :: rest =>
    match (r.imports.getD node [])[next]? with
    | some (.new child) =>
      if child < r.nodes.length ∧ child ∉ s.visited then
        some { s with stack := (child, 0) :: (node, next + 1) :: rest
                      visited := child :: s.visited }
      else some { s with stack := (node, next + 1) :: rest }
    | some (.existing _) => some { s with stack := (node, next + 1) :: rest }
    | none => some { s with stack := rest, order := s.order ++ [node] }

/-- **Collection order**: the post-order of the imports from node `0`. -/
def collectionOrder (r : Registry) : List ℕ :=
  if r.nodes.length = 0 then []
  else
    let fuel := (r.imports.map (·.length)).sum + r.nodes.length
    (Loop.run (collectionStep r) fuel ⟨[(0, 0)], [0], []⟩).order

/-- `Walk::finish`: puts the nodes into collection order. -/
def finish (r : Registry) : Registry := { r with postOrder := collectionOrder r }

/-- `register_all`: the walk from the root module. -/
def registerAll (cat : Catalog) (root : Fin cat.size)
    (plan : Option (TestPlan cat.size)) : Registry :=
  finish (reach cat none plan (cat.size + 1) [] {} root .root).1

/-- `register_lazy`: the walk of a load over the base graph. -/
def registerLazy (cat : Catalog) (base : Graph) (module : Fin cat.size)
    (location : Location) : Registry :=
  finish (reach cat (some base) none (cat.size + 1) [] {} module (.load location)).1

/-! ## What the walk registers -/

/-- **Every registered node is what some `register` wrote.** -/
def Registry.WellFormed (r : Registry) : Prop :=
  ∀ node ∈ r.nodes, node.toModuleContent.WellFormed

/-- A walk that keeps the registered nodes well formed. -/
def Reach.Keeps {n : ℕ} (reach : Reach n) : Prop :=
  ∀ path r m site, r.WellFormed → (reach path r m site).1.WellFormed

variable {n : ℕ}

theorem followImports_wellFormed {reach : Reach n} (h : reach.Keeps) (path : List ℕ) (index : ℕ)
    (r : Registry) (imports : List (Fin n × Location)) (hr : r.WellFormed) :
    (followImports reach path index r imports).WellFormed := by
  unfold followImports
  refine foldlRecOn imports _ hr fun r hr import_ _ => ?_
  exact h (index :: path) r import_.1 (.import_ (.new index) import_.2) hr

theorem enter_wellFormed {reach : Reach n} (h : reach.Keeps) (path : List ℕ) (r : Registry)
    (m : ModuleDecl n) (site : Site) (hr : r.WellFormed) :
    (enter reach path r m site).1.WellFormed := by
  unfold enter
  split
  · split <;> exact hr
  · refine followImports_wellFormed h _ _ _ _ fun node hnode => ?_
    rcases mem_append.mp hnode with hold | hnew
    · exact hr node hold
    · rw [mem_singleton.mp hnew]
      exact (m.register (r.inheritedKeyed path)).wellFormed

theorem recordReplaced_nodes (r : Registry) (m : ModuleDecl n) (import_ : Import) :
    (recordReplaced r m import_).nodes = r.nodes := by
  unfold recordReplaced
  split
  · split <;> rfl
  · rfl

theorem reach_wellFormed (cat : Catalog) (base : Option Graph)
    (plan : Option (TestPlan cat.size)) (fuel : ℕ) :
    (reach cat base plan fuel).Keeps := by
  induction fuel with
  | zero => exact fun _ _ _ _ hr => hr
  | succ fuel ih =>
    intro path r m site hr
    simp only [reach]
    split
    · exact hr
    · split
      · intro node hnode
        rw [recordReplaced_nodes] at hnode
        exact enter_wellFormed ih _ _ _ _ hr node hnode
      · exact enter_wellFormed ih _ _ _ _ hr

theorem registerAll_wellFormed (cat : Catalog) (root : Fin cat.size)
    (plan : Option (TestPlan cat.size)) : (registerAll cat root plan).WellFormed :=
  reach_wellFormed cat none plan _ [] {} root .root fun _ h => nomatch h

theorem registerLazy_wellFormed (cat : Catalog) (base : Graph)
    (module : Fin cat.size) (location : Location) :
    (registerLazy cat base module location).WellFormed :=
  reach_wellFormed cat (some base) none _ [] {} module (.load location)
    fun _ h => nomatch h

/-! ## Collection order -/

/-- **The invariant of `collection_order`**: a node is entered once, and sits
in a frame or in the order from then on. -/
structure CollectionState.Inv (r : Registry) (s : CollectionState) : Prop where
  nodup : (s.stack.map Prod.fst ++ s.order).Nodup
  visited : ∀ i ∈ s.stack.map Prod.fst ++ s.order, i ∈ s.visited ∧ i < r.nodes.length

theorem collectionStep_inv (r : Registry) (s s' : CollectionState) (hs : s.Inv r)
    (h : collectionStep r s = some s') : s'.Inv r := by
  obtain ⟨hnodup, hvisited⟩ := hs
  unfold collectionStep at h
  split at h
  · cases h
  rename_i node next rest hstack
  simp only [hstack, map_cons, cons_append] at hnodup hvisited
  split at h
  · split at h
    · -- a child entered for the first time is in no frame and not in the order
      rename_i child _ hnew
      cases h
      refine ⟨?_, ?_⟩
      · simp only [map_cons, cons_append]
        refine nodup_cons.mpr ⟨fun hmem => hnew.2 (hvisited child hmem).1, hnodup⟩
      · intro i hi
        simp only [map_cons, cons_append, mem_cons] at hi hvisited ⊢
        rcases hi with rfl | hi
        · exact ⟨.inl rfl, hnew.1⟩
        · exact ⟨.inr (hvisited i hi).1, (hvisited i hi).2⟩
    · cases h
      exact ⟨hnodup, hvisited⟩
  · cases h
    exact ⟨hnodup, hvisited⟩
  · -- the placed node moves from its frame to the order
    cases h
    have hperm : (rest.map Prod.fst ++ (s.order ++ [node])).Perm
        (node :: (rest.map Prod.fst ++ s.order)) := by
      rw [← append_assoc]
      exact perm_append_singleton node _
    exact ⟨hperm.nodup_iff.mpr hnodup, fun i hi => hvisited i (hperm.mem_iff.mp hi)⟩

theorem collectionOrder_inv (r : Registry) :
    (collectionOrder r).Nodup ∧ ∀ i ∈ collectionOrder r, i < r.nodes.length := by
  unfold collectionOrder
  split
  · exact ⟨nodup_nil, fun _ h => nomatch h⟩
  · have hinv := Loop.run_inv (collectionStep r) (CollectionState.Inv r) (collectionStep_inv r)
      ((r.imports.map (·.length)).sum + r.nodes.length) ⟨[(0, 0)], [0], []⟩
      ⟨by simp, by simp; omega⟩
    refine ⟨(nodup_append.mp hinv.nodup).2.1, fun i hi => ?_⟩
    exact (hinv.visited i (mem_append_right _ hi)).2

end Ulo
