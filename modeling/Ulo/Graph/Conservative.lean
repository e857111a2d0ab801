import Ulo.Graph.Lazy

/-!
# Loads are conservative

What a load leaves of the graph it extends. Everything the base had is there,
unchanged and under the same ids, and the singletons of the load come after all
of the base's in the connect order, because a base singleton waits for base
singletons alone and has the smaller id.

The collections are the exception that the refusal of a load is there for. A
contribution reaches every reader of its key, in whatever module the reader
stands, so `refusal` asks whether the base has or reads the collection – and
`readsCollection` asks every reader of the base but one: the metadata of its
modules declares reads too.

The last section says what every graph of an application's lifetime has.
-/

namespace Ulo

open List

/-! ## The connect order of a load -/

namespace Extending

variable {base : Graph} {r : Registry} {load : Option ℕ} {unmarked : List FrozenBinding}
  {g : Graph} {d : Declared} (h : Extending base r load unmarked g d)
include h

theorem isSingleton_old {i : ℕ} (hi : i < base.bindings.length) :
    isSingleton (wiredGraph g d) i = isSingleton base i := by
  simp only [isSingleton, h.binding_old hi]

/-- A base binding leads to what it led to. -/
theorem leadsTo_old {i dep : ℕ} (hi : i < base.bindings.length) :
    LeadsTo (wiredGraph g d) i dep ↔ LeadsTo base i dep := by
  have hb := h.wired.readsInBounds
  constructor
  · intro hl
    induction hl with
    | read hdep hne => exact .read (h.waitsFor_old hi ▸ hdep) hne
    | through _ heff hdep hne ih =>
      have hlt := ih.lt hb hi
      exact .through ih (h.binding_old hlt ▸ heff) (h.constructionDeps_old hlt ▸ hdep) hne
  · intro hl
    induction hl with
    | read hdep hne => exact .read (h.waitsFor_old hi ▸ hdep) hne
    | through ht heff hdep hne ih =>
      have hlt := ht.lt hb hi
      exact .through ih (h.binding_old hlt ▸ heff) (h.constructionDeps_old hlt ▸ hdep) hne

theorem mem_singletonDeps_old {i dep : ℕ} (hi : i < base.bindings.length) :
    dep ∈ singletonDeps (wiredGraph g d) i ↔ dep ∈ singletonDeps base i := by
  rw [(mem_singletonDeps h.readsInBounds (h.lt_wired hi)).2,
    (mem_singletonDeps h.wired.readsInBounds hi).2, h.leadsTo_old hi]
  refine and_congr_right fun hl => ?_
  rw [h.isSingleton_old (hl.lt h.wired.readsInBounds hi)]

/-- **The base's order is greedy in the extended graph**: a new singleton has a
larger id than any of the base. -/
theorem connectOrder_greedy_old :
    Kahn.Greedy (singletonIds (wiredGraph g d)) (singletonDeps (wiredGraph g d))
      (connectOrder base) := by
  intro pre i post hsplit
  have hgreedy := (connectOrder_greedy h.wired.readsInBounds h.wired.acyclic).1
  obtain ⟨⟨hnode, hnew, hdeps⟩, hleast⟩ := hgreedy pre i post hsplit
  obtain ⟨hlt, hsing⟩ := mem_singletonIds.mp hnode
  refine ⟨⟨mem_singletonIds.mpr ⟨h.lt_wired hlt, (h.isSingleton_old hlt).trans hsing⟩, hnew,
    fun dep hdep => hdeps dep ((h.mem_singletonDeps_old hlt).mp hdep)⟩, fun j hj => ?_⟩
  obtain ⟨hjnode, hjnew, hjdeps⟩ := hj
  rcases Nat.lt_or_ge j base.bindings.length with hjlt | hjge
  · refine hleast j ⟨mem_singletonIds.mpr ⟨hjlt, ?_⟩, hjnew, fun dep hdep =>
      hjdeps dep ((h.mem_singletonDeps_old hjlt).mpr hdep)⟩
    exact (h.isSingleton_old hjlt).symm.trans (mem_singletonIds.mp hjnode).2
  · exact (Nat.le_of_lt hlt).trans hjge

/-- **The base's order comes first**, and after it the singletons that are new. -/
theorem connectOrder_split (hacyclic : Acyclic (wiredGraph g d)) :
    connectOrder (wiredGraph g d) = connectOrder base ++
      (connectOrder (wiredGraph g d)).filter (base.bindings.length ≤ ·) := by
  obtain ⟨hgreedy, hmax⟩ := connectOrder_greedy h.readsInBounds hacyclic
  obtain ⟨rest, hrest⟩ := h.connectOrder_greedy_old.prefix_of_maximal hgreedy hmax
  have hbase : ∀ i ∈ connectOrder base, i < base.bindings.length := fun i hi =>
    (mem_singletonIds.mp ((connectOrder_perm h.wired.readsInBounds).mem_iff.mp hi)).1
  have hnew : ∀ i ∈ rest, base.bindings.length ≤ i := by
    intro i hi
    by_contra hlt
    rw [not_le] at hlt
    -- a base singleton stands in the base's order, and nothing stands in the order twice
    have hnodup := hgreedy.nodup
    rw [← hrest] at hnodup hgreedy
    have hsing := (mem_singletonIds.mp (hgreedy.mem_nodes (mem_append_right _ hi))).2
    have hold : i ∈ connectOrder base :=
      (connectOrder_perm h.wired.readsInBounds).mem_iff.mpr
        (mem_singletonIds.mpr ⟨hlt, (h.isSingleton_old hlt).symm.trans hsing⟩)
    exact disjoint_of_nodup_append hnodup hold hi
  rw [← hrest, filter_append,
    filter_eq_nil_iff.mpr fun i hi => by simpa using hbase i hi,
    filter_eq_self.mpr fun i hi => by simpa using hnew i hi, nil_append]

end Extending

/-! ## Loads extend conservatively -/

/-- **A conservative extension**: what the base had is there, unchanged and
under the same ids. -/
structure Graph.Extends (base g : Graph) : Prop where
  modules : base.modules <+: g.modules
  /-- With their ids, edges, roles, effective scopes and flags. -/
  bindings : base.bindings <+: g.bindings
  visibility : base.visibility <+: g.visibility
  exported : base.exported <+: g.exported
  inputs : g.inputs = base.inputs
  handlers : g.handlers = base.handlers
  closures : g.closures = base.closures
  root : g.root = base.root

variable {r : Registry} {g base : Graph} {key : Key}

theorem freeze_root {n : ℕ} (hbase : base.Laid) (hr : r.WellFormed) (hcollected : r.Collected)
    (load : Option ℕ) (plan : Option (TestPlan n)) :
    (freeze base r load plan).1.root = base.root := by
  have hplanned := applyPlan_planned (r := r) (r.names base) plan
  exact congrArg (·.root) (freezeNodes_layout
    (startFreezing_layout hbase (applyPlan r (r.names base) plan).1 load) (r.names base)
    (hplanned.marked hr.marked) (hplanned.collected hcollected) rfl).1.rest

/-- What an admitted registry leaves of the base, once it is wired. -/
theorem Extending.extends {load : Option ℕ} {unmarked : List FrozenBinding} {d : Declared}
    (h : Extending base r load unmarked g d) (hhandlers : g.handlers = base.handlers)
    (hinputs : g.inputs = base.inputs) (hroot : g.root = base.root) :
    base.Extends (wiredGraph g d) where
  modules := (wiredGraph_sameShape g d).modules ▸ h.frozen.modules
  bindings := by
    refine prefix_of_getElem? fun i hi => ?_
    rw [getElem?_binding (h.lt_wired hi), getElem?_binding hi, h.binding_old hi]
  visibility := by
    refine prefix_of_getElem? fun i hi => ?_
    change (buildTables g d).visibility[i]? = _
    have hi' : i < d.firstModule := h.visibility_length ▸ hi
    simp only [buildTables, h.frozen.visibility, getElem?_mapIdx]
    rw [getElem?_append_left hi]
    simp only [hi', if_true, Option.map_id']
  exported := by
    have hstate := h.exportState
    have hlen : base.exported.length = base.modules.length := h.wired.tabled.exported
    refine prefix_of_getElem? fun i hi => ?_
    change (exportLists g d)[i]? = _
    have hlt : i < (exportLists g d).length := by
      rw [hstate.length]
      exact (hlen ▸ hi).trans_le h.modules_le
    have hkept := hstate.kept i (h.frozen.firstModule ▸ hlen ▸ hi)
    rw [h.frozen.exported] at hkept
    simpa [hlt, hi] using hkept
  inputs := (wiredGraph_sameReads g d).inputs.trans hinputs
  handlers := (wiredGraph_sameShape g d).handlers.trans hhandlers
  closures := by
    -- no new handler, so no closure's scope is decided
    have hnone : (decidedGraph g d).handlers.drop d.firstHandler = [] := by
      have hdecided : (decidedGraph g d).handlers = g.handlers := rfl
      rw [hdecided, hhandlers, h.frozen.firstHandler, drop_length]
    change (closureScopes (decidedGraph g d) d).1.closures = _
    simp only [closureScopes, hnone, flatMap_nil, foldl_nil]
    exact h.frozen.closures
  root := hroot

/-- **The graphs of an application's lifetime**: one that `wire` answered, and
what the loads made of it. -/
inductive Graph.Reachable : Graph → Prop
  | wire {cat : Catalog} {root : Fin cat.size} {env : WireEnv}
      {plan : Option (TestPlan cat.size)} {g : Graph} (h : Ulo.wire cat root env plan = .ok g) :
      Reachable g
  | load {cat : Catalog} {base : Graph} {m : Fin cat.size} {env : WireEnv}
      {location : Location} {out : LazyWiring} (hbase : Reachable base)
      (h : wireLazy cat base m env location = .ok out) : Reachable out.graph

theorem Graph.Reachable.wired (h : g.Reachable) : g.Wired := by
  induction h with
  | wire h => exact wire_wired h
  | load _ h ih => exact wireLazy_wired ih h

/-! ## A sample program -/

/-- A binding of the sample, with what its constructor reads. -/
def sampleBinding (scope : ScopeKind) (ty : TypeId) (reads : List Read) : BindingRecord :=
  { primary := ⟨ty, unitType⟩, scope, recipe := .construct ty, dependencies := .of reads }

/-- A singleton of it. -/
def sampleSingleton (ty : TypeId) (reads : List Read) : BindingRecord :=
  sampleBinding .singleton ty reads

/-- A singleton of the sample that is contributed to a collection. -/
def sampleContribution (ty built : TypeId) : BindingRecord :=
  { primary := ⟨ty, unitType⟩, kind := .collection, scope := .singleton
    recipe := .construct built, intoPrimary := some ⟨built, ty⟩ }

/-- The root module of the sample: a singleton, and metadata that reads a
collection nothing contributes to. -/
def sampleRoot : Registration 3 where
  content :=
    { bindings := [sampleSingleton 1 []]
      exports := [{ key := ⟨1, unitType⟩ }]
      metas := [{ ty := 50, dependencies := .of [{ kind := .collection ⟨9, unitType⟩ }] }] }
  wellFormed := ⟨by decide, by simp, by simp⟩

/-- A module to load: its first singleton reads its second, which reads the
root's and has a readiness check and a hook; and two transients, of which one
needs an execution and the other reads it, as one built per execution does. -/
def sampleFeature : Registration 3 where
  content :=
    { bindings := [
        sampleSingleton 2 [{ kind := .single ⟨3, unitType⟩ }],
        { sampleSingleton 3 [{ kind := .single ⟨1, unitType⟩ }] with
          ready := some { dependencies := .of [{ kind := .single ⟨1, unitType⟩ }] }
          hooks := [{
            kind := .onModuleInit, dependencies := .of [{ kind := .single ⟨2, unitType⟩ }] }]
          aliasShape := nofun },
        sampleBinding .transient 5 [{ kind := .execution }],
        sampleBinding .transient 6 [{ kind := .single ⟨5, unitType⟩ }],
        sampleBinding .perExecution 7 [{ kind := .single ⟨6, unitType⟩ }]] }
  imports := [(0, 0)]
  wellFormed := ⟨by decide, by simp, by simp⟩

/-- A module to load that contributes to the collection the metadata reads. -/
def samplePlugin : Registration 3 where
  content :=
    { bindings := [sampleContribution 9 4] }
  wellFormed := ⟨by decide, by simp, by simp⟩

/-- **The sample program.** -/
def sample : Catalog where
  size := 3
  module
    | 0 => { identity := { ty := 100 }, register := fun _ => sampleRoot }
    | 1 => { identity := { ty := 101 }, register := fun _ => sampleFeature }
    | 2 => { identity := { ty := 102 }, register := fun _ => samplePlugin }

/-- The sample's modules. -/
abbrev sampleModule (i : Fin 3) : Fin sample.size := i

/-- A module of the sample as an application. Its feature has three singletons,
one of which reads the one registered after it. -/
def sampleApp (i : Fin 3) : Graph := (wire sample (sampleModule i) {} none).toOption.getD {}

/-- The root, wired. -/
def sampleBase : Graph := sampleApp 0

/-- The sample, extended by a load. -/
def sampleLoad (i : Fin 3) : LazyWiring :=
  (wireLazy sample sampleBase (sampleModule i) {} 0).toOption.getD ⟨{}, 0, []⟩

theorem sampleApp_eq (i : Fin 3) : wire sample (sampleModule i) {} none = .ok (sampleApp i) := by
  refine Except.eq_ok_getD _ ?_
  revert i
  decide +kernel

theorem sampleBase_eq : wire sample (sampleModule 0) {} none = .ok sampleBase := sampleApp_eq 0

/-- **The need for an execution.** For every graph the pass computes the least flags; in a graph
that `wire` accepts no singleton reaches execution data. -/
theorem needsExecution_least (g : Graph) : (needsExecution g).LeastNeeds ∧
    ∀ {cat : Catalog} {root : Fin cat.size} {env : WireEnv} {plan : Option (TestPlan cat.size)},
      wire cat root env plan = .ok g → g.LeastNeeds ∧ ∀ id < g.bindings.length,
        (g.binding id).effective = .singleton → ¬ ReachesExecution g id := by
  refine ⟨(needsExecution_decided g).leastNeeds, fun h => ?_⟩
  have hg := wire_wired h
  refine ⟨hg.decided.leastNeeds, fun id hid heff hreaches => ?_⟩
  have hneeds := (hg.decided.needs id hid).mpr (hreaches.needs hg.decided hg.readsInBounds hid)
  exact (hg.scopes _ (binding_mem hid)).needs hneeds heff

/-- The second transient needs an execution by what it reads, and the singletons reach none. -/
theorem needsExecution_least_sample : (sampleApp 1).bindings.length = 6 ∧
    (((sampleApp 1).binding 4).ownNeed = false ∧ ((sampleApp 1).binding 4).needsExecution = true) ∧
    ((sampleApp 1).binding 1).effective = .singleton ∧ ¬ ReachesExecution (sampleApp 1) 1 := by
  have hlength : (sampleApp 1).bindings.length = 6 := by decide +kernel
  have heff : ((sampleApp 1).binding 1).effective = .singleton := by decide +kernel
  obtain ⟨hleast, hsingle⟩ := (needsExecution_least (sampleApp 1)).2 (sampleApp_eq 1)
  refine ⟨hlength, ⟨by decide +kernel, (hleast.fixpoint 4 (hlength ▸ by decide)).mpr (.inr ?_)⟩,
    heff, hsingle 1 (hlength ▸ by decide) heff⟩
  exact ⟨3, by decide +kernel, by decide +kernel⟩

theorem sampleLoad_eq {i : Fin 3} (hi : i ≠ 0) :
    wireLazy sample sampleBase (sampleModule i) {} 0 = .ok (sampleLoad i) := by
  refine Except.eq_ok_getD _ ?_
  revert i
  decide +kernel

section Load

variable {cat : Catalog} {base : Graph} {m : Fin cat.size} {env : WireEnv}
  {location : Location} {out : LazyWiring}

theorem loadGraph_root (hbase : base.Wired) :
    (loadGraph cat base m location).1.root = base.root :=
  freeze_root (n := 0) hbase.laid (registerLazy_wellFormed cat base m location)
    (finish_collected _) (some (nextLoad base)) none

/-- What a load of a new module leaves of a wired base. -/
theorem wireLazy_conservative (hbase : base.Wired)
    (hnew : base.byIdentity (cat.module m).identity = none)
    (h : wireLazy cat base m env location = .ok out) :
    base.Extends out.graph ∧
      out.graph.connectOrder = base.connectOrder ++ out.singletons := by
  have hext := wireLazy_extending hbase hnew h
  have hwired := wireLazy_wired hbase h
  obtain ⟨hrefusal, hgraph, -, hsingletons, -, -⟩ := wireLazy_eq_ok hnew h
  obtain ⟨hhandlers, hinputs⟩ := loadGraph_quiet hrefusal
  have hextends := hext.extends hhandlers hinputs (loadGraph_root hbase)
  rw [← hgraph] at hextends
  have hsplit := hext.connectOrder_split (hgraph ▸ hwired.acyclic)
  rw [← hgraph, ← hwired.connectOrder, ← hbase.connectOrder, ← hext.frozen.firstBinding,
    ← hsingletons] at hsplit
  exact ⟨hextends, hsplit⟩

/-- **A load extends the graph conservatively.** What the base had is there,
under the same ids; the base's connect order comes first, and what follows it is
what the load has to connect. -/
theorem wireLazy_extends (hbase : base.Reachable)
    (hnew : base.byIdentity (cat.module m).identity = none)
    (h : wireLazy cat base m env location = .ok out) :
    base.Extends out.graph ∧ base.connectOrder <+: out.graph.connectOrder ∧
      out.graph.connectOrder = base.connectOrder ++ out.singletons := by
  obtain ⟨hextends, horder⟩ := wireLazy_conservative hbase.wired hnew h
  exact ⟨hextends, horder ▸ prefix_append _ _, horder⟩

/-- The feature's two singletons follow the root's, the one that is read first. -/
theorem wireLazy_extends_feature : sampleBase.Extends (sampleLoad 1).graph ∧
    sampleBase.connectOrder = [0] ∧ (sampleLoad 1).singletons = [2, 1] ∧
      (sampleLoad 1).graph.connectOrder = sampleBase.connectOrder ++ (sampleLoad 1).singletons := by
  obtain ⟨hextends, -, horder⟩ := wireLazy_extends (.wire sampleBase_eq) (by decide +kernel)
    (sampleLoad_eq (i := 1) (by decide))
  exact ⟨hextends, by decide +kernel, by decide +kernel, horder⟩

end Load

/-! ## What a load changes of the collections -/

theorem map_record_frozenBindings (node : ModuleNode) (id : ModuleId) (first : ℕ) :
    (frozenBindings node id first).map (·.record) = node.bindings := by
  refine ext_getElem? fun i => ?_
  rw [getElem?_map, getElem?_frozenBindings, Option.map_map]
  exact Option.map_id'

/-- Freezing keeps every record, in collection order. -/
theorem freezeNodes_records (names : List ModuleName) (load : Option ℕ) (firstModule : ℕ)
    (s : Freezing) (hbound : ∀ i ∈ r.postOrder, i < r.nodes.length) :
    (freezeNodes r names load firstModule s).graph.bindings.map (·.record) =
      s.graph.bindings.map (·.record) ++ r.postOrder.flatMap fun i => (r.node i).bindings := by
  suffices hrun : ∀ (order : List ℕ) (k : ℕ) (s : Freezing),
      (∀ i ∈ order, i < r.nodes.length) →
      ((order.zipIdx k).foldl (freezeStep r names load firstModule) s).graph.bindings.map
        (·.record) =
      s.graph.bindings.map (·.record) ++ order.flatMap fun i => (r.node i).bindings by
    exact hrun r.postOrder 0 s hbound
  intro order
  induction order with
  | nil => simp
  | cons index order ih =>
    intro k s hlt
    obtain ⟨node, hnode⟩ : ∃ node, r.nodes[index]? = some node :=
      ⟨_, getElem?_eq_getElem (hlt index mem_cons_self)⟩
    have hbindings : (freezeNode r names load firstModule s index k node).graph.bindings =
        s.graph.bindings ++ frozenBindings node (firstModule + k) s.graph.bindings.length :=
      congrArg (·.graph.bindings) (freezeNode_core r names load firstModule s index k node).1
    rw [zipIdx_cons, foldl_cons, ih (k + 1) _ fun i hi =>
      hlt i (mem_cons_of_mem _ hi)]
    simp only [freezeStep, hnode, Registry.node_of_getElem? hnode, flatMap_cons]
    rw [hbindings, map_append, map_record_frozenBindings, append_assoc]

/-- The records of the modules that a load brings. -/
def loadRecords (cat : Catalog) (base : Graph) (m : Fin cat.size) (location : Location) :
    List BindingRecord :=
  match base.byIdentity (cat.module m).identity with
  | some _ => []
  | none =>
    let r := registerLazy cat base m location
    r.postOrder.flatMap fun i => (r.node i).bindings

/-- **Whatever of a graph reads a collection**, by declaration. -/
inductive Graph.ReadsCollection (g : Graph) (key : Key) : Prop
  | binding (b : FrozenBinding) (hb : b ∈ g.bindings)
      (h : b.record.dependencies.readsCollection key = true)
  | readiness (b : FrozenBinding) (hb : b ∈ g.bindings) (ready : ReadyRecord)
      (hready : b.record.ready = some ready) (h : ready.dependencies.readsCollection key = true)
  | hook (b : FrozenBinding) (hb : b ∈ g.bindings) (hook : HookRecord)
      (hhook : hook ∈ b.record.hooks) (h : hook.dependencies.readsCollection key = true)
  | moduleHook (m : FrozenModule) (hm : m ∈ g.modules) (hook : HookRecord)
      (hhook : hook ∈ m.hooks) (h : hook.dependencies.readsCollection key = true)
  | metadata (m : FrozenModule) (hm : m ∈ g.modules) (entry : MetaEntry)
      (hentry : entry ∈ m.metas) (h : entry.dependencies.readsCollection key = true)
  | parameter (handler : HandlerRecord) (hh : handler ∈ g.handlers)
      (h : handler.decl.dependencies.readsCollection key = true)
  | role (handler : HandlerRecord) (hh : handler ∈ g.handlers)
      (h : key ∈ handler.decl.roleKeys)
  | closure (handler : HandlerRecord) (hh : handler ∈ g.handlers) (c : ClosureDep)
      (hc : c ∈ handler.closureDeps) (h : c.dependencies.readsCollection key = true)

theorem Dependencies.readsCollection_iff {d : Dependencies} :
    d.readsCollection key = true ↔ ∃ r ∈ d.reads, r.kind = .collection key := by
  simp [Dependencies.readsCollection]

/-- In a wired graph the edges tell which collections a construction reads. -/
theorem Graph.Wired.edges_collection (hg : g.Wired) {b : FrozenBinding} (hb : b ∈ g.bindings) :
    b.edges.any (·.target = .collection key) = b.record.dependencies.readsCollection key := by
  obtain ⟨id, hid⟩ := List.mem_iff_getElem?.mp hb
  have hlt := (List.getElem?_eq_some_iff.mp hid).1
  obtain rfl := binding_of_getElem? hid
  rw [hg.edges id hlt, Bool.eq_iff_iff, any_eq_true, Dependencies.readsCollection_iff]
  constructor
  · rintro ⟨e, he, htarget⟩
    obtain ⟨r, hr, hread⟩ := mem_bindingEdges he
    rw [of_decide_eq_true htarget] at hread
    refine ⟨r, hr, ?_⟩
    unfold readTarget keyTarget at hread
    split at hread
    · split at hread <;> cases hread
    · rename_i hkind
      obtain rfl := EdgeTarget.collection.inj (Option.some.inj hread)
      exact hkind
    all_goals cases hread
  · rintro ⟨r, hr, hkind⟩
    obtain ⟨e, he, htarget⟩ := edge_of_read hr
      (show readTarget g (g.binding id).origin r = some (.collection key) by
        simp [readTarget, hkind])
    exact ⟨e, he, decide_eq_true htarget⟩

/-- **The readers a load's refusal asks** are all of them but the metadata. -/
theorem Graph.Wired.readsCollection_iff (hg : g.Wired) :
    g.ReadsCollection key ↔ Ulo.readsCollection g key = true ∨
      ∃ m ∈ g.modules, ∃ entry ∈ m.metas, entry.dependencies.readsCollection key = true := by
  simp only [Ulo.readsCollection, Bool.or_eq_true, any_eq_true, Option.any_eq_true,
    contains_iff_mem]
  constructor
  · rintro (⟨b, hb, h⟩ | ⟨b, hb, ready, hready, h⟩ | ⟨b, hb, hook, hhook, h⟩ |
      ⟨m, hm, hook, hhook, h⟩ | ⟨m, hm, entry, hentry, h⟩ | ⟨handler, hh, h⟩ |
      ⟨handler, hh, h⟩ | ⟨handler, hh, c, hc, h⟩)
    · rw [← hg.edges_collection hb, any_eq_true] at h
      exact .inl (.inl (.inl ⟨b, hb, .inl (.inl h)⟩))
    · exact .inl (.inl (.inl ⟨b, hb, .inl (.inr ⟨ready, hready, h⟩)⟩))
    · exact .inl (.inl (.inl ⟨b, hb, .inr ⟨hook, hhook, h⟩⟩))
    · exact .inl (.inl (.inr ⟨m, hm, hook, hhook, h⟩))
    · exact .inr ⟨m, hm, entry, hentry, h⟩
    · exact .inl (.inr ⟨handler, hh, .inl (.inr h)⟩)
    · exact .inl (.inr ⟨handler, hh, .inl (.inl h)⟩)
    · exact .inl (.inr ⟨handler, hh, .inr ⟨c, hc, h⟩⟩)
  · rintro (((⟨b, hb, (h | ⟨ready, hready, h⟩) | ⟨hook, hhook, h⟩⟩ | ⟨m, hm, hook, hhook, h⟩) |
      ⟨handler, hh, (h | h) | ⟨c, hc, h⟩⟩) | ⟨m, hm, entry, hentry, h⟩)
    · rw [← any_eq_true, hg.edges_collection hb] at h
      exact .binding b hb h
    · exact .readiness b hb ready hready h
    · exact .hook b hb hook hhook h
    · exact .moduleHook m hm hook hhook h
    · exact .role handler hh h
    · exact .parameter handler hh h
    · exact .closure handler hh c hc h
    · exact .metadata m hm entry hentry h

theorem Graph.Wired.collection_eq (hg : g.Wired) (key : Key) :
    g.collection key = contributionsTo key g.bindings := by
  rw [Graph.collection, hg.collected, present_getD]

theorem contributionsTo_eq_nil {l : List FrozenBinding} :
    contributionsTo key l = [] ↔ ∀ record ∈ l.map (·.record), record.kind = .collection →
      recordKey record ≠ key := by
  simp [contributionsTo, contributesTo]

theorem Graph.SameShape.records {g' : Graph} (h : g.SameShape g') :
    g'.bindings.map (·.record) = g.bindings.map (·.record) := by
  simpa [Function.comp_def, FrozenBinding.shape] using
    congrArg (map fun s : BindingId × ModuleId × BindingRecord => s.2.2) h.bindings

theorem map_record_markRole (roles : List TypeId) (l : List FrozenBinding) :
    (l.map (markRole roles)).map (·.record) = l.map (·.record) := by
  rw [map_map]
  exact map_congr_left fun b _ => congrArg (·.2.2) (markRole_shape roles b)

section Collections

variable {cat : Catalog} {base : Graph} {m : Fin cat.size} {env : WireEnv}
  {location : Location} {out : LazyWiring}

section

variable (hbase : base.Wired) (h : wireLazy cat base m env location = .ok out)
include hbase h

/-- **The bindings a load adds** have the records of the modules it brings. -/
theorem wireLazy_records : ∃ new, out.graph.bindings = base.bindings ++ new ∧
      new.map (·.record) = loadRecords cat base m location := by
  cases hid : base.byIdentity (cat.module m).identity with
  | some =>
    refine ⟨[], ?_, by simp [loadRecords, hid]⟩
    rw [wireLazy_existing hid h, append_nil]
  | none =>
    obtain ⟨new, hnew⟩ := (wireLazy_conservative hbase hid h).1.bindings
    refine ⟨new, hnew.symm, ?_⟩
    obtain ⟨-, hgraph, -⟩ := wireLazy_eq_ok hid h
    have hcollected : (registerLazy cat base m location).Collected := finish_collected _
    have hrecords := freezeNodes_records ((registerLazy cat base m location).names base)
      (some (nextLoad base)) base.modules.length
      (startFreezing base (registerLazy cat base m location)) hcollected.2
    have hsame := (wiredGraph_sameShape (loadGraph cat base m location).1
      (loadGraph cat base m location).2.1).records
    rw [← hgraph, (wireLazy_extending hbase hid h).frozen.marked, map_record_markRole,
      ← hnew, map_append] at hsame
    simp only [loadRecords, hid]
    exact append_cancel_left (hsame.trans hrecords)

theorem wireLazy_collection_read {key : Key} (hkey : readsCollection base key = true) :
    out.graph.collection key = base.collection key := by
  cases hid : base.byIdentity (cat.module m).identity with
  | some => rw [wireLazy_existing hid h]
  | none =>
    rw [(wireLazy_eq_ok hid h).2.1]
    exact (wireLazy_extending hbase hid h).collection_old (.inr hkey)

end

/-- **When a load leaves the collections of the base's readers alone**: exactly
when it contributes to no collection that the metadata of a base module reads. -/
theorem wireLazy_collections_iff (hbase : base.Reachable)
    (h : wireLazy cat base m env location = .ok out) :
    (∀ key, base.ReadsCollection key → out.graph.collection key = base.collection key) ↔
      ∀ mod ∈ base.modules, ∀ entry ∈ mod.metas, ∀ record ∈ loadRecords cat base m location,
        record.kind = .collection →
          entry.dependencies.readsCollection (recordKey record) = false := by
  obtain ⟨new, hnew, hrecords⟩ := wireLazy_records hbase.wired h
  have hcollection : ∀ key, out.graph.collection key = base.collection key ↔
      ∀ record ∈ loadRecords cat base m location, record.kind = .collection →
        recordKey record ≠ key := by
    intro key
    rw [(wireLazy_wired hbase.wired h).collection_eq, hbase.wired.collection_eq, hnew,
      contributionsTo_append, append_right_eq_self, contributionsTo_eq_nil, hrecords]
  constructor
  · intro hkept mod hmod entry hentry record hrecord hkind
    by_contra hreads
    have hread := Graph.ReadsCollection.metadata mod hmod entry hentry
      (Bool.eq_true_of_not_eq_false hreads)
    exact (hcollection _).mp (hkept _ hread) record hrecord hkind rfl
  · intro hmetas key hread
    rcases hbase.wired.readsCollection_iff.mp hread with hread | ⟨mod, hmod, entry, hentry, hread⟩
    · exact wireLazy_collection_read hbase.wired h hread
    · refine (hcollection key).mpr fun record hrecord hkind hkey => ?_
      rw [← hkey, hmetas mod hmod entry hentry record hrecord hkind] at hread
      cases hread

theorem sampleBase_reads : sampleBase.ReadsCollection ⟨9, unitType⟩ := by
  rw [(wire_wired sampleBase_eq).readsCollection_iff]
  exact .inr (by decide +kernel)

/-- The feature contributes to nothing. -/
theorem wireLazy_collections_feature : sampleBase.ReadsCollection ⟨9, unitType⟩ ∧
    (sampleLoad 1).graph.collection ⟨9, unitType⟩ = sampleBase.collection ⟨9, unitType⟩ :=
  ⟨sampleBase_reads, (wireLazy_collections_iff (.wire sampleBase_eq)
    (sampleLoad_eq (i := 1) (by decide))).mpr (by decide +kernel) _ sampleBase_reads⟩

/-- **A collection that metadata reads grows under it**: the plugin is not
refused. -/
theorem metadata_collection_grows :
    wire sample (sampleModule 0) {} none = .ok sampleBase ∧
      wireLazy sample sampleBase (sampleModule 2) {} 0 = .ok (sampleLoad 2) ∧
      sampleBase.ReadsCollection ⟨9, unitType⟩ ∧
      sampleBase.collection ⟨9, unitType⟩ = [] ∧
      (sampleLoad 2).graph.collection ⟨9, unitType⟩ = [1] := by
  exact ⟨sampleBase_eq, sampleLoad_eq (by decide), sampleBase_reads, by decide +kernel,
    by decide +kernel⟩

end Collections

/-! ## What every graph of a lifetime has -/

theorem sampleLoad_reachable : (sampleLoad 1).graph.Reachable :=
  .load (.wire sampleBase_eq) (sampleLoad_eq (by decide))

theorem sampleLoad_table : 2 < (sampleLoad 1).graph.bindings.length ∧
    (sampleLoad 1).graph.lookup 1 ⟨1, unitType⟩ = some (.binding 0) := by
  decide +kernel

/-- **Nothing waits for itself**, directly or through others, and following aliases from a binding
ends at one that is no alias. -/
theorem reachable_waits_end (h : g.Reachable) {id : BindingId} (hid : id < g.bindings.length) :
    ¬ Relation.TransGen (fun a b => b ∈ waitsFor g a) id id ∧
      throughAliases g g.bindings.length id < g.bindings.length ∧
      ∀ key, (g.binding (throughAliases g g.bindings.length id)).record.recipe ≠ .alias key := by
  have hb := h.wired.readsInBounds
  obtain ⟨rank, hrank⟩ := h.wired.acyclic
  have hfalls : ∀ {dep}, Relation.TransGen (fun a b => b ∈ waitsFor g a) id dep →
      dep < g.bindings.length ∧ rank dep < rank id := by
    intro dep hwalk
    induction hwalk with
    | single hdep => exact ⟨hb id hid _ hdep, hrank id hid _ hdep (hb id hid _ hdep)⟩
    | tail _ hdep ih =>
      have hlt := hb _ ih.1 _ hdep
      exact ⟨hlt, (hrank _ ih.1 _ hdep hlt).trans ih.2⟩
  have hlt := throughAliases_lt hb g.bindings.length hid
  refine ⟨fun hcycle => Nat.lt_irrefl _ (hfalls hcycle).2, hlt, fun key halias => ?_⟩
  obtain ⟨target, htarget⟩ := h.wired.aliases _ hlt key halias
  have hends := throughAliases_ends hb ⟨rank, hrank⟩ hid
  simp [Graph.aliasTarget, halias, htarget] at hends

theorem reachable_waits_end_sample :
    ¬ Relation.TransGen (fun a b => b ∈ waitsFor (sampleLoad 1).graph a) 1 1 :=
  (reachable_waits_end sampleLoad_reachable (Nat.lt_of_succ_lt sampleLoad_table.1)).1

/-- **Every read a program declares can be made**: tables lead to single bindings and to declared
inputs, and what a constructor, a readiness check or a hook reads is in the table of its module,
unless the read is optional. -/
theorem reachable_reads_resolve (h : g.Reachable) :
    (∀ m key id, g.lookup m key = some (.binding id) → g.Single id) ∧
    (∀ m key input, g.lookup m key = some (.input input) → input = key ∧ key ∈ g.inputs) ∧
    (∀ b ∈ g.bindings, AllResolve g b.origin b.record.dependencies ∧ ClosuresResolve g b) ∧
    ∀ m ∈ g.modules, ∀ hook ∈ m.hooks, AllResolve g m.id hook.dependencies := by
  have hg := h.wired
  refine ⟨hg.tabled.binding, hg.tabled.input, fun b hb => ⟨?_, hg.resolved.closures b hb⟩,
    hg.resolved.hooks⟩
  obtain ⟨hlt, heq⟩ := hg.laid.binding_id hb
  exact heq ▸ hg.resolved.bindings _ hlt

theorem reachable_reads_resolve_sample : (sampleLoad 1).graph.Single 0 :=
  (reachable_reads_resolve sampleLoad_reachable).1 1 ⟨1, unitType⟩ 0 sampleLoad_table.2

/-- **What runs outside of an execution reads none of its data**: not a singleton's constructor,
through whatever transients it reads, nor a readiness check, nor a hook. -/
theorem reachable_outside (h : g.Reachable) : g.Outside ∧ ∀ b ∈ g.bindings,
    (b.effective = .singleton → ¬ ReachesExecution g b.id) ∧
    (b.effective = .perExecution → b.record.hooks = [] ∧ b.record.ready = none) := by
  have hg := h.wired
  refine ⟨hg.outside, fun b hb => ⟨fun heff hreaches => ?_, (hg.scopes b hb).outside⟩⟩
  obtain ⟨hlt, heq⟩ := hg.laid.binding_id hb
  have hneeds := (hg.decided.needs _ hlt).mpr (hreaches.needs hg.decided hg.readsInBounds hlt)
  exact (hg.scopes b hb).needs (heq ▸ hneeds) heff

/-- The hook of the feature's second singleton reads its first, and neither reaches execution
data, which the transients of the module do. -/
theorem reachable_outside_sample :
    (∃ hook ∈ ((sampleLoad 1).graph.binding 2).record.hooks, hook.dependencies.reads ≠ [] ∧
      ReadsOutside (sampleLoad 1).graph 1 (some 2) hook.dependencies) ∧
    ((sampleLoad 1).graph.binding 4).needsExecution = true ∧
    ¬ ReachesExecution (sampleLoad 1).graph 2 := by
  obtain ⟨houtside, hbindings⟩ := reachable_outside sampleLoad_reachable
  have hmem : (sampleLoad 1).graph.binding 2 ∈ (sampleLoad 1).graph.bindings :=
    binding_mem sampleLoad_table.1
  exact ⟨⟨_, by decide +kernel, by decide +kernel, houtside.hooks _ hmem _ mem_cons_self⟩,
    by decide +kernel, (hbindings _ hmem).1 (by decide +kernel)⟩

end Ulo
