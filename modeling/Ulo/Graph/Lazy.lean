import Ulo.Graph.Sound

/-!
# Applications and loads

`wire` answers wired graphs, and `wireLazy` extends a wired graph to a wired
graph. Both are one argument: an application is an extension of the empty graph.
-/

namespace Ulo

open List Option

/-! ## The empty graph -/

theorem wired_empty : ({} : Graph).Wired where
  laid := Graph.laid_empty
  collected _ := rfl
  tabled := ⟨rfl, rfl, by simp [ExportsSingle], fun m key id h => by simp [Graph.lookup] at h,
    fun m key input h => by simp [Graph.lookup] at h⟩
  edges id hid := absurd hid (Nat.not_lt_zero id)
  resolved := ⟨fun id hid => absurd hid (Nat.not_lt_zero id), by simp, by simp⟩
  aliases id hid := absurd hid (Nat.not_lt_zero id)
  built := by simp
  acyclic := ⟨fun _ => 0, fun id hid => absurd hid (Nat.not_lt_zero id)⟩
  roles := ⟨by simp, by simp [namedEnhancers]⟩
  decided := ⟨fun id hid => absurd hid (Nat.not_lt_zero id),
    fun id hid => absurd hid (Nat.not_lt_zero id)⟩
  scopes := by simp
  outside := ⟨by simp, by simp, by simp⟩
  connectOrder := rfl

/-! ## Registries -/

theorem finish_collected (r : Registry) : (finish r).Collected := collectionOrder_inv r

theorem timerNode_wellFormed (timer : ℕ) (runtime : Option ℕ) :
    (timerNode timer runtime).toModuleContent.WellFormed where
  failures_paired := by cases runtime <;> rfl
  controllers_bound k hk := by cases hk
  enhancers_bound e he := by cases he

variable {r : Registry} {base : Graph}

theorem addTimerModule_wellFormed (hr : r.WellFormed) (timer : ℕ) (runtime : Option ℕ) :
    (addTimerModule r timer runtime).WellFormed := by
  intro node hnode
  rcases mem_snoc.mp hnode with hnode | rfl
  · exact hr node hnode
  · exact timerNode_wellFormed timer runtime

theorem addTimerModule_collected (hr : r.Collected) (timer : ℕ) (runtime : Option ℕ) :
    (addTimerModule r timer runtime).Collected := by
  refine ⟨nodup_cons.mpr ⟨fun hmem => Nat.lt_irrefl _ (hr.2 _ hmem), hr.1⟩, fun i hi => ?_⟩
  simp only [addTimerModule, length_append, length_singleton]
  rcases mem_cons.mp hi with rfl | hi
  · exact Nat.lt_succ_self _
  · exact (hr.2 i hi).trans (Nat.lt_succ_self _)

theorem registerApp_spec (cat : Catalog) (root : Fin cat.size) (env : WireEnv)
    (plan : Option (TestPlan cat.size)) :
    (registerApp cat root env plan).WellFormed ∧ (registerApp cat root env plan).Collected := by
  have hr := registerAll_wellFormed cat root plan
  have hcollected : (registerAll cat root plan).Collected := finish_collected _
  unfold registerApp
  dsimp only
  split
  · exact ⟨addTimerModule_wellFormed hr _ _, addTimerModule_collected hcollected _ _⟩
  · exact ⟨hr, hcollected⟩

/-! ## Applications -/

/-- The frozen graph does not depend on the root it is given. -/
theorem Frozen.withRoot {load : Option ℕ} {unmarked : List FrozenBinding} {g : Graph} {d : Declared}
    (h : Frozen base r load unmarked g d) (root : ModuleId) :
    Frozen base r load unmarked { g with root := root } d where
  laid := (⟨rfl, rfl, rfl⟩ : g.SameShape { g with root := root }).laid h.laid
  modules := h.modules
  bindings := h.bindings
  marked := h.marked
  visibility := h.visibility
  exported := h.exported
  closures := h.closures
  collections := h.collections
  firstModule := h.firstModule
  firstBinding := h.firstBinding
  firstHandler := h.firstHandler
  held := h.held
  exports := h.exports
  loaded := h.loaded

/-- The frozen graph of an application, with its root. -/
def appGraph (cat : Catalog) (root : Fin cat.size) (env : WireEnv)
    (plan : Option (TestPlan cat.size)) : Graph :=
  let out := freeze {} (registerApp cat root env plan) none plan
  { out.1 with root := out.2.1.root }

/-- What the checks of an application read beside its graph. -/
def appDeclared (cat : Catalog) (root : Fin cat.size) (env : WireEnv)
    (plan : Option (TestPlan cat.size)) : Declared :=
  (freeze {} (registerApp cat root env plan) none plan).2.1

section App

variable {cat : Catalog} {root : Fin cat.size} {env : WireEnv}
  {plan : Option (TestPlan cat.size)} {g : Graph}

section

variable (h : wire cat root env plan = .ok g)
include h

/-- **What `wire` answers**: the graph of an application that passed every check. -/
theorem wire_eq_ok : g = wiredGraph (appGraph cat root env plan) (appDeclared cat root env plan) ∧
      CheckClean (appGraph cat root env plan) (appDeclared cat root env plan) ∧
      (freeze {} (registerApp cat root env plan) none plan).2.2.bindings = [] := by
  unfold wire at h
  dsimp only at h
  split at h
  · rename_i hempty
    obtain ⟨hbindings, hclean⟩ := check_clean (isEmpty_iff.mp hempty)
    exact ⟨(Except.ok.inj h).symm, hclean, hbindings⟩
  · cases h

/-- An application extends the empty graph. -/
theorem wire_extending : Extending {} (applyPlan (registerApp cat root env plan)
        ((registerApp cat root env plan).names {}) plan).1 none
      (frozenState {} (registerApp cat root env plan) none plan).graph.bindings
      (appGraph cat root env plan) (appDeclared cat root env plan) := by
  obtain ⟨hr, hcollected⟩ := registerApp_spec cat root env plan
  have hfrozen := freeze_frozen Graph.laid_empty hr hcollected none plan
  obtain ⟨-, hroles⟩ := freeze_clean Graph.laid_empty hr hcollected none plan (wire_eq_ok h).2.2
  exact ⟨wired_empty, hfrozen.withRoot _, fun hne => absurd rfl hne, fun hne => absurd rfl hne,
    fun key hkey => by simp [readsCollection] at hkey, hroles⟩

/-- **`wire` answers wired graphs.** -/
theorem wire_wired : g.Wired := by
  obtain ⟨hr, hcollected⟩ := registerApp_spec cat root env plan
  obtain ⟨rfl, hclean, hbindings⟩ := wire_eq_ok h
  obtain ⟨hbuilt, -⟩ := freeze_clean Graph.laid_empty hr hcollected none plan hbindings
  exact (wire_extending h).wiredGraph_wired hclean hbuilt

end

end App

/-! ## What a refusal lets through -/

theorem nodeRefusal_none {name : ModuleName} {node : ModuleNode}
    (h : nodeRefusal base name node = none) :
    node.controllers = [] ∧ node.metas = [] ∧ node.inputs = [] ∧
      ∀ record ∈ node.bindings, record.kind = .collection →
        recordKey record ∉ base.collections ∧
          readsCollection base (recordKey record) = false := by
  unfold nodeRefusal at h
  split at h
  · cases h
  rename_i hcontrollers
  split at h
  · cases h
  rename_i hmetas
  rw [or_eq_none_iff, or_eq_none_iff, map_eq_none_iff] at h
  obtain ⟨hinputs, -, hcontributions⟩ := h
  refine ⟨not_not.mp hcontrollers, not_not.mp hmetas, head?_eq_none_iff.mp hinputs,
    fun record hrecord hkind => ?_⟩
  rw [contributionRefusal, map_eq_none_iff, find?_eq_none] at hcontributions
  simpa [hkind] using hcontributions record hrecord

theorem refusal_none (h : refusal base r = none) {i : ℕ} (hi : i ∈ r.postOrder) :
    nodeRefusal base (Registry.nameOf (r.names base) i) (r.node i) = none :=
  findSome?_eq_none_iff.mp h i hi

/-! ## Loads -/

section Load

variable {cat : Catalog} {base : Graph} {m : Fin cat.size} {env : WireEnv}
  {location : Location} {out : LazyWiring}

/-- The frozen graph of a load, and what its checks read beside it. -/
def loadGraph (cat : Catalog) (base : Graph) (m : Fin cat.size) (location : Location) :
    Graph × Declared × Steps :=
  freeze (n := 0) base (registerLazy cat base m location) (some (nextLoad base)) none

/-- A module the graph has is answered with the graph as it is. -/
theorem wireLazy_existing {existing : ModuleId}
    (hid : base.byIdentity (cat.module m).identity = some existing)
    (h : wireLazy cat base m env location = .ok out) : out = ⟨base, existing, []⟩ := by
  unfold wireLazy at h
  simp only [hid] at h
  split at h
  · exact (Except.ok.inj h).symm
  · cases h

/-- **What `wire_lazy` answers** for a module the graph does not have. -/
theorem wireLazy_eq_ok (hnew : base.byIdentity (cat.module m).identity = none)
    (h : wireLazy cat base m env location = .ok out) :
    let frozen := loadGraph cat base m location
    refusal base (registerLazy cat base m location) = none ∧
      out.graph = wiredGraph frozen.1 frozen.2.1 ∧ out.module = frozen.2.1.root ∧
      out.singletons = out.graph.connectOrder.filter (frozen.2.1.firstBinding ≤ ·) ∧
      CheckClean frozen.1 frozen.2.1 ∧ frozen.2.2.bindings = [] := by
  intro frozen
  have hextend : extend base (registerLazy cat base m location) env =
      (settledGraph frozen.1 frozen.2.1, frozen.2.1,
        (check frozen.1 frozen.2.1 env frozen.2.2).2) := rfl
  unfold wireLazy at h
  simp only [hnew, hextend] at h
  split at h
  · cases h
  rename_i hrefusal
  split at h
  · rename_i hempty
    obtain ⟨hbindings, hclean⟩ := check_clean (isEmpty_iff.mp hempty)
    obtain rfl := Except.ok.inj h
    refine ⟨hrefusal, rfl, rfl, ?_, hclean, hbindings⟩
    dsimp only
  · cases h

/-- A load that is not refused brings no handler and no input. -/
theorem loadGraph_quiet (hrefusal : refusal base (registerLazy cat base m location) = none) :
    (loadGraph cat base m location).1.handlers = base.handlers ∧
      (loadGraph cat base m location).1.inputs = base.inputs :=
  freezeNodes_quiet ((registerLazy cat base m location).names base)
    (some (nextLoad base)) base.modules.length
    (startFreezing base (registerLazy cat base m location)) fun _ hi =>
      have hnode := nodeRefusal_none (refusal_none hrefusal hi)
      ⟨hnode.1, hnode.2.2.1⟩

variable (hbase : base.Wired)
include hbase

/-- A load that is not refused extends the graph it finds. -/
theorem wireLazy_extending (hnew : base.byIdentity (cat.module m).identity = none)
    (h : wireLazy cat base m env location = .ok out) :
    Extending base (registerLazy cat base m location) (some (nextLoad base))
      (frozenState (n := 0) base (registerLazy cat base m location) (some (nextLoad base))
        none).graph.bindings
      (loadGraph cat base m location).1 (loadGraph cat base m location).2.1 := by
  obtain ⟨hrefusal, -, -, -, -, hbindings⟩ := wireLazy_eq_ok hnew h
  have hr := registerLazy_wellFormed cat base m location
  have hcollected : (registerLazy cat base m location).Collected := finish_collected _
  have hfrozen := freeze_frozen (n := 0) hbase.laid hr hcollected (some (nextLoad base)) none
  obtain ⟨-, hroles⟩ := freeze_clean (n := 0) hbase.laid hr hcollected (some (nextLoad base)) none
    hbindings
  have hquiet := loadGraph_quiet hrefusal
  refine ⟨hbase, hfrozen, fun _ => hquiet.1, fun _ => hquiet.2, fun key hkey => ?_, hroles⟩
  -- a new contribution to the key would have been refused
  by_contra hne
  obtain ⟨id, hid⟩ := exists_mem_of_ne_nil _ hne
  obtain ⟨b, hb, -, hkind, rfl⟩ := mem_contributionsTo.mp hid
  obtain ⟨i, hi, hmem⟩ := hfrozen.held b hb
  obtain ⟨-, -, -, hcontributions⟩ := nodeRefusal_none (refusal_none hrefusal hi)
  obtain ⟨hheld, hreads⟩ := hcontributions b.record hmem hkind
  rcases hkey with hkey | hkey
  · exact hheld hkey
  · rw [hreads] at hkey
    cases hkey

/-- **A load extends a wired graph to a wired graph.** -/
theorem wireLazy_wired (h : wireLazy cat base m env location = .ok out) : out.graph.Wired := by
  cases hid : base.byIdentity (cat.module m).identity with
  | some =>
    rw [wireLazy_existing hid h]
    exact hbase
  | none =>
    obtain ⟨-, hgraph, -, -, hclean, hbindings⟩ := wireLazy_eq_ok hid h
    obtain ⟨hbuilt, -⟩ := freeze_clean (n := 0) hbase.laid
      (registerLazy_wellFormed cat base m location) (finish_collected _)
      (some (nextLoad base)) none hbindings
    rw [hgraph]
    exact (wireLazy_extending hbase hid h).wiredGraph_wired hclean hbuilt

end Load

end Ulo
