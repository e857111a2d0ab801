import Mathlib.Algebra.BigOperators.Group.Finset.Basic
import Ulo.Graph.Lazy

/-!
# A load's graph has the module it was asked for

The walk of a load claims the module's identity first, as node `0`; every other
node has an identity of its own, and none is the identity of a module of the base
graph. Collection order starts at node `0` and ends with it placed, so it becomes
a module of the extended graph, and the only one of its identity: the one that
`by_identity` finds, and that `load` answers.

`collection_order` keeps a stack of frames and has no bound in the source. Each step
takes an import off the work that is left (`collectionWork`), whatever cycles the
imports make, so the loop ends with an empty stack and node `0` in the order.
-/

namespace Ulo

open List Option

/-! ## What the walk of a load claims -/

/-- **The nodes of a load**: each has its imports, an identity that no other has,
and that no module of the base graph has. -/
structure Registry.Claimed (base : Graph) (r : Registry) : Prop where
  sized : r.imports.length = r.nodes.length
  distinct : (r.nodes.map (·.identity)).Nodup
  fresh : ∀ node ∈ r.nodes, base.byIdentity node.identity = none

/-- A walk that claims identities as it should, and registers more nodes. -/
def Reach.Claims {n : ℕ} (base : Graph) (reach : Reach n) : Prop :=
  ∀ path r m site, r.Claimed base →
    (reach path r m site).1.Claimed base ∧ r.nodes <+: (reach path r m site).1.nodes

section Claims

variable {n : ℕ} {base : Graph} {reach : Reach n} (h : reach.Claims base) {r : Registry}
include h

theorem followImports_claims (path : List ℕ) (index : ℕ) (imports : List (Fin n × Location))
    (hr : r.Claimed base) : (followImports reach path index r imports).Claimed base ∧
      r.nodes <+: (followImports reach path index r imports).nodes := by
  unfold followImports
  refine foldlRecOn (motive := fun r' : Registry =>
    r'.Claimed base ∧ r.nodes <+: r'.nodes) imports _ ⟨hr, prefix_rfl⟩ fun r' hr' import_ _ => ?_
  obtain ⟨hclaimed, hgrown⟩ :=
    h (index :: path) r' import_.1 (.import_ (.new index) import_.2) hr'.1
  exact ⟨⟨by simpa using hclaimed.sized, hclaimed.distinct, hclaimed.fresh⟩, hr'.2.trans hgrown⟩

theorem enter_claims (path : List ℕ) (m : ModuleDecl n) (site : Site)
    (hfresh : base.byIdentity m.identity = none) (hr : r.Claimed base) :
    (enter reach path r m site).1.Claimed base ∧
      r.nodes <+: (enter reach path r m site).1.nodes := by
  unfold enter
  split
  · split
    · exact ⟨⟨hr.sized, hr.distinct, hr.fresh⟩, prefix_rfl⟩
    · exact ⟨⟨hr.sized, hr.distinct, hr.fresh⟩, prefix_rfl⟩
  · rename_i hnew
    -- the identity is claimed by no node yet
    have hnone : ∀ node ∈ r.nodes, node.identity ≠ m.identity := by
      intro node hnode heq
      have hfound := findIdx?_eq_none_iff.mp hnew node hnode
      exact absurd (decide_eq_true heq) (by rw [hfound]; exact Bool.false_ne_true)
    have hclaimed : Registry.Claimed base { r with
        nodes := r.nodes ++ [{ (m.register (r.inheritedKeyed path)).content with
          identity := m.identity, settings := m.settings, site := site }]
        imports := r.imports ++ [[]] } := by
      refine ⟨by simp [hr.sized], ?_, fun node hnode => ?_⟩
      · rw [map_append, map_singleton, nodup_append]
        refine ⟨hr.distinct, nodup_singleton _, fun a ha b hb => ?_⟩
        obtain ⟨node, hnode, rfl⟩ := mem_map.mp ha
        rw [mem_singleton.mp hb]
        exact hnone node hnode
      · rcases mem_snoc.mp hnode with hnode | rfl
        · exact hr.fresh node hnode
        · exact hfresh
    obtain ⟨hclaimed, hgrown⟩ := followImports_claims h path r.nodes.length
      (m.register (r.inheritedKeyed path)).imports hclaimed
    exact ⟨hclaimed, (prefix_append _ _).trans hgrown⟩

end Claims

theorem reach_claims (cat : Catalog) (base : Graph) (fuel : ℕ) :
    (reach cat (some base) none fuel).Claims base := by
  induction fuel with
  | zero => exact fun _ _ _ _ hr => ⟨hr, prefix_rfl⟩
  | succ fuel ih =>
    intro path r m site hr
    simp only [reach]
    split
    · exact ⟨⟨hr.sized, hr.distinct, hr.fresh⟩, prefix_rfl⟩
    · rename_i hnone
      refine enter_claims ih path (cat.module m) site ?_ hr
      simpa using hnone

variable {cat : Catalog} {base : Graph}

/-- **Node `0` of a load is the module it was asked for.** -/
theorem registerLazy_claims {m : Fin cat.size}
    (hnew : base.byIdentity (cat.module m).identity = none) (location : Location) :
    (registerLazy cat base m location).Claimed base ∧
      ∃ node, (registerLazy cat base m location).nodes[0]? = some node ∧
        node.identity = (cat.module m).identity := by
  have hempty : ({} : Registry).Claimed base := ⟨rfl, nodup_nil, fun _ h => (nomatch h)⟩
  obtain ⟨hclaimed, -⟩ := reach_claims cat base (cat.size + 1) [] {} m (.load location) hempty
  refine ⟨⟨hclaimed.sized, hclaimed.distinct, hclaimed.fresh⟩, ?_⟩
  have henter : (reach cat (some base) none (cat.size + 1) [] {} m (.load location)).1 =
      (enter (reach cat (some base) none cat.size) [] {} (cat.module m) (.load location)).1 := by
    simp [reach, hnew]
  change ∃ node, (reach cat (some base) none (cat.size + 1) [] {} m (.load location)).1.nodes[0]? =
    some node ∧ _
  rw [henter]
  -- the walk of its imports registers more nodes after it
  let first : ModuleNode := { ((cat.module m).register none).content with
    identity := (cat.module m).identity, settings := (cat.module m).settings
    site := .load location }
  have hfirst : Registry.Claimed base { nodes := [first], imports := [[]] } :=
    ⟨rfl, nodup_singleton _, fun node hnode => by rw [mem_singleton.mp hnode]; exact hnew⟩
  obtain ⟨-, rest, hrest⟩ := followImports_claims (reach_claims cat base cat.size) [] 0
    ((cat.module m).register none).imports hfirst
  exact ⟨first, (congrArg (·[0]?) hrest.symm).trans rfl, rfl⟩

/-! ## Collection order ends -/

/-- The number of a node's imports. -/
def importCount (r : Registry) (node : ℕ) : ℕ := (r.imports.getD node []).length

/-- What is left for `collection_order` to do: the rest of each frame, and all of
each node that is not entered. -/
def collectionWork (r : Registry) (s : CollectionState) : ℕ :=
  (s.stack.map fun f => importCount r f.1 + 1 - f.2).sum +
    ∑ i ∈ Finset.range r.nodes.length, if i ∈ s.visited then 0 else importCount r i + 1

/-- A frame stands within its node's imports, and node `0` stays. -/
structure CollectionState.Rooted (r : Registry) (s : CollectionState) : Prop where
  within : ∀ f ∈ s.stack, f.2 ≤ importCount r f.1
  rooted : 0 ∈ s.stack.map Prod.fst ++ s.order

theorem collectionStep_rooted (r : Registry) (s s' : CollectionState) (hs : s.Rooted r)
    (h : collectionStep r s = some s') :
    s'.Rooted r ∧ collectionWork r s' < collectionWork r s := by
  obtain ⟨hwithin, hrooted⟩ := hs
  unfold collectionStep at h
  split at h
  · cases h
  rename_i node next rest hstack
  have hnext : next ≤ importCount r node := hwithin (node, next) (by rw [hstack]; simp)
  have hrest : ∀ f ∈ rest, f.2 ≤ importCount r f.1 := fun f hf =>
    hwithin f (by rw [hstack]; exact mem_cons_of_mem _ hf)
  simp only [hstack, map_cons, cons_append] at hrooted
  -- passing over an import
  have hskip : ∀ {i : Import}, (r.imports.getD node [])[next]? = some i →
      CollectionState.Rooted r { s with stack := (node, next + 1) :: rest } ∧
        collectionWork r { s with stack := (node, next + 1) :: rest } < collectionWork r s := by
    intro i hi
    have hlt : next < importCount r node := (List.getElem?_eq_some_iff.mp hi).1
    refine ⟨⟨fun f hf => ?_, hrooted⟩, ?_⟩
    · rcases mem_cons.mp hf with rfl | hf
      · exact hlt
      · exact hrest f hf
    · simp only [collectionWork, hstack, map_cons, sum_cons]
      omega
  split at h
  · rename_i child himport
    split at h
    · -- the child's work moves from the nodes not entered to its frame
      rename_i hentered
      cases h
      have hlt : next < importCount r node := (List.getElem?_eq_some_iff.mp himport).1
      refine ⟨⟨fun f hf => ?_, List.mem_cons_of_mem _ hrooted⟩, ?_⟩
      · rcases mem_cons.mp hf with rfl | hf
        · exact Nat.zero_le _
        · rcases mem_cons.mp hf with rfl | hf
          · exact hlt
          · exact hrest f hf
      · have hmem : child ∈ Finset.range r.nodes.length := Finset.mem_range.mpr hentered.1
        have hsplit := Finset.add_sum_erase (Finset.range r.nodes.length)
          (fun i => if i ∈ s.visited then 0 else importCount r i + 1) hmem
        have hsplit' := Finset.add_sum_erase (Finset.range r.nodes.length)
          (fun i => if i ∈ child :: s.visited then 0 else importCount r i + 1) hmem
        have hsame : ∑ i ∈ (Finset.range r.nodes.length).erase child,
            (if i ∈ child :: s.visited then 0 else importCount r i + 1) =
            ∑ i ∈ (Finset.range r.nodes.length).erase child,
              if i ∈ s.visited then 0 else importCount r i + 1 := by
          refine Finset.sum_congr rfl fun i hi => ?_
          simp [(Finset.mem_erase.mp hi).1]
        simp only [hentered.2, if_false, mem_cons, true_or, if_true] at hsplit hsplit'
        simp only [mem_cons] at hsame
        simp only [collectionWork, hstack, map_cons, sum_cons, mem_cons]
        omega
    · cases h
      exact hskip himport
  · rename_i himport
    cases h
    exact hskip himport
  · cases h
    refine ⟨⟨hrest, ?_⟩, ?_⟩
    · rcases mem_cons.mp hrooted with rfl | hmem
      · simp
      · rcases mem_append.mp hmem with hmem | hmem
        · exact mem_append_left _ hmem
        · exact mem_append_right _ (mem_append_left _ hmem)
    · simp only [collectionWork, hstack, map_cons, sum_cons]
      omega

variable {r : Registry}

theorem sum_importCount (hsized : r.imports.length = r.nodes.length) :
    ∑ i ∈ Finset.range r.nodes.length, (importCount r i + 1) =
      (r.imports.map (·.length)).sum + r.nodes.length := by
  have hsum : ∀ l : List (List Import), ∑ i ∈ Finset.range l.length, (l.getD i []).length =
      (l.map (·.length)).sum := by
    intro l
    induction l using reverseRecOn with
    | nil => rfl
    | append_singleton l x ih =>
      have hold : ∀ i ∈ Finset.range l.length, ((l ++ [x]).getD i []).length =
          (l.getD i []).length := fun i hi => by
        rw [getD_eq_getElem?_getD, getElem?_append_left (Finset.mem_range.mp hi),
          ← getD_eq_getElem?_getD]
      rw [length_append, length_singleton, Finset.sum_range_succ,
        Finset.sum_congr rfl hold, ih]
      simp
  rw [Finset.sum_add_distrib, ← hsized, ← hsum, ← Finset.card_eq_sum_ones, Finset.card_range]
  rfl

/-- **Node `0` is placed.** -/
theorem collectionOrder_root (hsized : r.imports.length = r.nodes.length)
    (hne : 0 < r.nodes.length) :
    0 ∈ collectionOrder r := by
  have hstart : CollectionState.Rooted r ⟨[(0, 0)], [0], []⟩ :=
    ⟨fun f hf => by rw [mem_singleton.mp hf]; exact Nat.zero_le _, by simp⟩
  have hwork : collectionWork r ⟨[(0, 0)], [0], []⟩ ≤
      (r.imports.map (·.length)).sum + r.nodes.length := by
    have hmem : 0 ∈ Finset.range r.nodes.length := Finset.mem_range.mpr hne
    have hall := Finset.add_sum_erase _ (fun i => importCount r i + 1) hmem
    have hrest := Finset.add_sum_erase _
      (fun i => if i ∈ [0] then 0 else importCount r i + 1) hmem
    have hsame : ∑ i ∈ (Finset.range r.nodes.length).erase 0,
        (if i ∈ [0] then 0 else importCount r i + 1) =
        ∑ i ∈ (Finset.range r.nodes.length).erase 0, (importCount r i + 1) := by
      refine Finset.sum_congr rfl fun i hi => if_neg ?_
      simpa using (Finset.mem_erase.mp hi).1
    rw [sum_importCount hsized] at hall
    rw [hsame, if_pos (mem_singleton.mpr rfl), Nat.zero_add] at hrest
    rw [collectionWork, ← hrest]
    simp only [map_cons, map_nil, sum_cons, sum_nil]
    omega
  obtain ⟨hrooted, hend⟩ := Loop.run_spec (collectionStep r) (CollectionState.Rooted r)
    (collectionWork r) (collectionStep_rooted r) _ _ hstart hwork
  have hroot := hrooted.rooted
  change 0 ∈ if r.nodes.length = 0 then [] else (Loop.run (collectionStep r)
    ((r.imports.map (·.length)).sum + r.nodes.length) ⟨[(0, 0)], [0], []⟩).order
  rw [if_neg hne.ne']
  generalize Loop.run (collectionStep r) ((r.imports.map (·.length)).sum + r.nodes.length)
    ⟨[(0, 0)], [0], []⟩ = s at hend hroot ⊢
  -- the loop ends with no frame left
  unfold collectionStep at hend
  split at hend
  · rename_i hstack
    simpa [hstack] using hroot
  · split at hend
    · split at hend <;> cases hend
    · cases hend
    · cases hend

/-! ## The module of a node -/

section

variable (names : List ModuleName) (load : Option ℕ) (firstModule : ℕ) (s : Freezing)
include names load firstModule s

/-- Freezing adds one module for each node, in collection order. -/
theorem freezeNodes_modules (hbound : ∀ i ∈ r.postOrder, i < r.nodes.length) :
    (freezeNodes r names load firstModule s).graph.modules.map (fun m => (m.identity, m.id)) =
      s.graph.modules.map (fun m => (m.identity, m.id)) ++
        r.postOrder.zipIdx.map fun p => ((r.node p.1).identity, firstModule + p.2) := by
  suffices hrun : ∀ (order : List ℕ) (k : ℕ) (s : Freezing),
      (∀ i ∈ order, i < r.nodes.length) →
      ((order.zipIdx k).foldl (freezeStep r names load firstModule) s).graph.modules.map
        (fun m => (m.identity, m.id)) =
      s.graph.modules.map (fun m => (m.identity, m.id)) ++
        (order.zipIdx k).map fun p => ((r.node p.1).identity, firstModule + p.2) by
    exact hrun r.postOrder 0 s hbound
  intro order
  induction order with
  | nil => simp
  | cons index order ih =>
    intro k s hlt
    obtain ⟨node, hnode⟩ : ∃ node, r.nodes[index]? = some node :=
      ⟨_, getElem?_eq_getElem (hlt index mem_cons_self)⟩
    have hmodules : (freezeNode r names load firstModule s index k node).graph.modules =
        s.graph.modules ++ [frozenModule r (Registry.nameOf names index) load firstModule index
          (firstModule + k) (range' s.graph.bindings.length node.bindings.length) node] :=
      congrArg (·.graph.modules) (freezeNode_core r names load firstModule s index k node).1
    rw [zipIdx_cons, foldl_cons, ih (k + 1) _ fun i hi =>
      hlt i (mem_cons_of_mem _ hi)]
    simp only [freezeStep, hnode, Registry.node_of_getElem? hnode, map_cons]
    rw [hmodules, map_append, append_assoc]
    rfl

theorem freezeNodes_root :
    (freezeNodes r names load firstModule s).declared.root = s.declared.root := by
  unfold freezeNodes
  refine foldlRecOn (motive := fun t : Freezing => t.declared.root = s.declared.root) _ _ rfl
    fun t ht place _ => ?_
  unfold freezeStep
  split
  · rename_i node _
    exact (congrArg (·.declared.root)
      (freezeNode_core r names load firstModule t place.1 place.2 node).1).trans ht
  · exact ht

end

/-- The only item of a kind, with its position. -/
theorem find?_zipIdx {l : List ℕ} {a k : ℕ} {p : ℕ × ℕ → Bool} (h : a ∈ l)
    (hp : ∀ x ∈ l.zipIdx k, p x = true ↔ x.1 = a) :
    (l.zipIdx k).find? p = some (a, k + l.idxOf a) := by
  induction l generalizing k with
  | nil => cases h
  | cons b l ih =>
    rw [zipIdx_cons] at hp ⊢
    by_cases hba : b = a
    · rw [find?_cons_of_pos ((hp _ mem_cons_self).mpr hba), hba, idxOf_cons_self]
      rfl
    · have hmem := (mem_cons.mp h).resolve_left fun hab => hba hab.symm
      rw [find?_cons_of_neg fun hpos => hba ((hp _ mem_cons_self).mp hpos),
        ih hmem fun x hx => hp x (mem_cons_of_mem _ hx), idxOf_cons_ne _ hba,
        Nat.add_assoc, Nat.add_comm 1]

/-- What `by_identity` finds, by identities and ids. -/
theorem Graph.byIdentity_eq (g : Graph) (identity : ModuleIdentity) :
    g.byIdentity identity =
      ((g.modules.map fun m => (m.identity, m.id)).find? (·.1 = identity)).map (·.2) := by
  rw [Graph.byIdentity, find?_map, Option.map_map]
  rfl

/-- **A load's graph has its module**, and `load` answers it. -/
theorem wireLazy_byIdentity {m : Fin cat.size} {env : WireEnv} {location : Location}
    {out : LazyWiring} (hnew : base.byIdentity (cat.module m).identity = none)
    (h : wireLazy cat base m env location = .ok out) :
    out.graph.byIdentity (cat.module m).identity = some out.module := by
  obtain ⟨-, hgraph, hmodule, -⟩ := wireLazy_eq_ok hnew h
  set r := registerLazy cat base m location with hr
  obtain ⟨hclaimed, first, hfirst, hidentity⟩ := registerLazy_claims hnew location
  have hne : 0 < r.nodes.length := (List.getElem?_eq_some_iff.mp hfirst).1
  have hcollected : r.Collected := finish_collected _
  have hroot : 0 ∈ r.postOrder := collectionOrder_root hclaimed.sized hne
  -- the modules of the graph: the base's, and one for each node
  have hmodules : out.graph.modules.map (fun m => (m.identity, m.id)) =
      base.modules.map (fun m => (m.identity, m.id)) ++
        r.postOrder.zipIdx.map fun p => ((r.node p.1).identity, base.modules.length + p.2) := by
    rw [hgraph, (wiredGraph_sameShape _ _).modules]
    exact freezeNodes_modules _ _ _ (startFreezing base r) hcollected.2
  have hbase : (base.modules.map fun m => (m.identity, m.id)).find?
      (·.1 = (cat.module m).identity) = none := by
    simpa [Graph.byIdentity_eq] using hnew
  rw [Graph.byIdentity_eq, hmodules, find?_append, hbase, none_or, find?_map]
  -- only node `0` has the identity
  have honly : ∀ p ∈ r.postOrder.zipIdx,
      decide ((r.node p.1).identity = (cat.module m).identity) = true ↔ p.1 = 0 := by
    intro p hp
    have hlt := hcollected.2 p.1 (fst_mem_of_mem_zipIdx hp)
    have hget : ∀ (i : ℕ) (node : ModuleNode), r.nodes[i]? = some node →
        (r.nodes.map (·.identity))[i]? = some node.identity := fun i node hnode => by
      rw [getElem?_map, hnode]
      rfl
    obtain ⟨node, hnode⟩ : ∃ node, r.nodes[p.1]? = some node := ⟨_, getElem?_eq_getElem hlt⟩
    rw [decide_eq_true_eq, Registry.node_of_getElem? hnode, ← hidentity]
    refine ⟨fun heq => ?_, fun hzero => ?_⟩
    · refine (getElem?_inj (by simpa using hlt) hclaimed.distinct).mp ?_
      rw [← hr, hget _ _ hnode, hget _ _ hfirst, heq]
    · rw [hzero, hfirst] at hnode
      rw [some.inj hnode]
  have hanswer : out.module = base.modules.length + r.postOrder.idxOf 0 := by
    have hroot' : out.module = (startFreezing base r).declared.root :=
      hmodule.trans (freezeNodes_root _ _ _ _)
    have hsome : r.nodes.isEmpty = false := by
      rw [isEmpty_eq_false_iff]
      exact ne_nil_of_length_pos hne
    rw [hroot']
    simp only [startFreezing, hsome, moduleOf, hroot, if_true, Bool.false_eq_true, if_false]
  have hfound := find?_zipIdx (k := 0) hroot honly
  change ((r.postOrder.zipIdx.find? fun x =>
    decide ((r.node x.1).identity = (cat.module m).identity)).map _).map _ = _
  rw [hfound, hanswer, Nat.zero_add]
  rfl

end Ulo
