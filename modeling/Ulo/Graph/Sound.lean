import Ulo.Graph.Extend

/-!
# What the checks guarantee

A wiring whose checks report nothing answers a wired graph (`Graph.Wired`):
what is new passed the checks, and what the base had is as it was.

The checks of reads, closures and bindings look only at what the wiring adds, so
their half of the argument is by cases: a module or a binding is the base's, or
new (`module_cases`, `binding_cases`). The base was wired, and the wiring leaves
alone what its part reads: its tables, its edges and its roles. A new one that
broke the property would have been reported. Cycles and scopes are looked for in
the whole graph, and need no such split.

A collection is the one thing read by the base that a load could add to. One that
the base holds or reads is closed to it, so what the base's closures read still
needs no execution (`readsOutside_old`).
-/

namespace Ulo

open List

/-- **The checks that a wiring passed.** -/
structure CheckClean (g : Graph) (d : Declared) : Prop where
  bindings : checkBindings (buildTables g d) d = []
  resolve : (resolveDependencies (buildTables g d) d).2 = []
  cycles : dependencyCycles (resolvedGraph g d) = []
  scopes : checkScopes (decidedGraph g d) = []
  closureScopes : (Ulo.closureScopes (decidedGraph g d) d).2 = []
  closures : checkClosures (settledGraph g d) d = []
  inputs : checkInputs (settledGraph g d) = []

theorem Steps.errors_eq_nil {s : Steps} (h : s.errors = []) :
    s.modules = [] ∧ s.bindings = [] ∧ s.dependencies = [] ∧ s.cycles = [] ∧
      s.scopes = [] ∧ s.environment = [] := by
  simpa [Steps.errors, and_assoc] using h

/-- A run of the checks without errors passed them all. -/
theorem check_clean {g : Graph} {d : Declared} {env : WireEnv} {steps : Steps}
    (h : (check g d env steps).2.errors = []) : steps.bindings = [] ∧ CheckClean g d := by
  obtain ⟨-, hbindings, hdependencies, hcycles, hscopes, -⟩ := Steps.errors_eq_nil h
  simp only [check, append_eq_nil_iff] at hbindings hdependencies hcycles hscopes
  exact ⟨hbindings.1, hbindings.2, hdependencies.1.2, hcycles.2, hscopes.1.1.1.2,
    hscopes.1.1.2, hscopes.1.2, hscopes.2⟩

variable {m : ModuleId} {deps : Dependencies}

theorem resolves_congr {g g' : Graph} (h : ∀ key, g'.lookup m key = g.lookup m key) {r : Read} :
    Resolves g' m r ↔ Resolves g m r := by
  simp only [Resolves, h]

theorem allResolve_congr {g g' : Graph} (h : ∀ key, g'.lookup m key = g.lookup m key) :
    AllResolve g' m deps ↔ AllResolve g m deps := by
  simp only [AllResolve, resolves_congr h]

theorem mem_drop_of_ge {α : Type} {l : List α} {first i : ℕ} {a : α} (hge : first ≤ i)
    (h : l[i]? = some a) : a ∈ l.drop first := by
  refine mem_iff_getElem?.mpr ⟨i - first, ?_⟩
  rw [getElem?_drop, Nat.add_sub_cancel' hge, h]

theorem bindingEdges_wired (g : Graph) (d : Declared) (id : BindingId) :
    bindingEdges (wiredGraph g d) id = bindingEdges (buildTables g d) id := by
  have hshape := wiredGraph_sameShape g d
  have hrecord : ((wiredGraph g d).binding id).record = ((buildTables g d).binding id).record :=
    hshape.record id
  have horigin : ((wiredGraph g d).binding id).origin = ((buildTables g d).binding id).origin :=
    hshape.origin id
  simp only [bindingEdges, readTarget, keyTarget, hrecord, horigin, wiredGraph_lookup]

namespace Extending

variable {base : Graph} {r : Registry} {load : Option ℕ} {unmarked : List FrozenBinding}
  {g : Graph} {d : Declared} (h : Extending base r load unmarked g d) {id : BindingId}
  {b : FrozenBinding}
include h

/-! ## Collections and tables -/

theorem shapes_old :
    (g.bindings.take base.bindings.length).map FrozenBinding.shape =
      base.bindings.map FrozenBinding.shape := by
  rw [h.frozen.marked, ← map_take,
    (prefix_iff_eq_take.mp h.frozen.bindings).symm, map_map]
  exact map_congr_left fun b _ => markRole_shape _ b

theorem contributionsTo_split (key : Key) :
    contributionsTo key (wiredGraph g d).bindings =
      contributionsTo key base.bindings ++
        contributionsTo key (g.bindings.drop base.bindings.length) := by
  rw [contributionsTo_congr key (wiredGraph_sameShape g d).bindings,
    ← contributionsTo_congr key h.shapes_old, ← contributionsTo_append, take_append_drop]

/-- **A collection holds the contributions of the whole graph.** -/
theorem collected (key : Key) : (wiredGraph g d).collections.lookup key =
    present (contributionsTo key (wiredGraph g d).bindings) := by
  have hcollections : (wiredGraph g d).collections = g.collections :=
    (wiredGraph_sameReads g d).collections
  rw [hcollections, h.frozen.collections, h.contributionsTo_split, Graph.collection,
    h.wired.collected, present_getD]
  cases hnew : contributionsTo key (g.bindings.drop base.bindings.length) with
  | nil => simp
  | cons => simp [present]

theorem single_old (hid : base.Single id) : g.Single id := by
  refine ⟨hid.1.trans_le h.bindings_le, ?_⟩
  rw [h.binding_frozen hid.1, h.markRole_old hid.1]
  exact hid.2

theorem exportState : ExportState g d.firstModule (exportLists g d) := by
  refine exportLists_state h.frozen.laid ?_ ?_ ?_ ?_
  · rw [h.frozen.exported, h.wired.tabled.exported, h.frozen.firstModule]
  · rw [h.frozen.firstModule]
    exact h.modules_le
  · intro l hl e he
    rw [h.frozen.exported] at hl
    exact h.single_old (h.wired.tabled.exports l hl e he)
  · rw [h.frozen.firstModule]
    exact h.frozen.exports

theorem tabled : (wiredGraph g d).Tabled := by
  have hshape := wiredGraph_sameShape g d
  have hexporting : ({ g with exported := exportLists g d } : Graph).Laid :=
    (⟨rfl, rfl, rfl⟩ : g.SameShape { g with exported := exportLists g d }).laid h.frozen.laid
  have hvis : (wiredGraph g d).visibility.length = g.modules.length :=
    buildTables_visibility_length (by
      rw [h.frozen.visibility, h.wired.tabled.visibility]
      exact h.modules_le)
  -- a table is the base's, one the wiring wrote, or there is none
  have hcases : ∀ m key, (m < base.modules.length ∧
        (wiredGraph g d).lookup m key = base.lookup m key) ∨
      (wiredGraph g d).lookup m key =
        (tableFor { g with exported := exportLists g d } m).lookup key ∨
      (wiredGraph g d).lookup m key = none := by
    intro m key
    rcases Nat.lt_or_ge m base.modules.length with hm | hm
    · exact .inl ⟨hm, h.lookup_old hm key⟩
    · rcases Nat.lt_or_ge m g.modules.length with hlt | hge
      · refine .inr (.inl ?_)
        rw [wiredGraph_lookup]
        exact buildTables_lookup_new h.frozen.visibility h.visibility_length
          (h.frozen.firstModule ▸ hm) hlt key
      · exact .inr (.inr (lookup_ge (hvis ▸ hge) key))
  refine ⟨hvis.trans (congrArg length hshape.modules).symm,
    h.exportState.length.trans (congrArg length hshape.modules).symm,
    fun l hl e he => hshape.single.mpr (h.exportState.single l hl e he),
    fun m key id hl => hshape.single.mpr ?_, fun m key input hl => ?_⟩
  · rcases hcases m key with ⟨hm, heq⟩ | heq | heq
    · exact h.single_old (h.wired.tabled.binding m key id (heq ▸ hl))
    · exact tableFor_binding hexporting h.exportState.single (heq ▸ hl)
    · rw [heq] at hl
      cases hl
  · have hinputs : (wiredGraph g d).inputs = g.inputs := (wiredGraph_sameReads g d).inputs
    rw [hinputs]
    rcases hcases m key with ⟨hm, heq⟩ | heq | heq
    · rw [h.inputs (ne_nil_of_length_pos (Nat.zero_lt_of_lt hm))]
      exact h.wired.tabled.input m key input (heq ▸ hl)
    · rw [heq] at hl
      exact tableFor_input (g := { g with exported := exportLists g d }) hl
    · rw [heq] at hl
      cases hl

/-! ## Reads -/

/-- **The edges are the declared reads, resolved.** -/
theorem edges (hid : id < (wiredGraph g d).bindings.length) :
    ((wiredGraph g d).binding id).edges = bindingEdges (wiredGraph g d) id := by
  rcases Nat.lt_or_ge id base.bindings.length with hlt | hge
  · rw [h.edges_old hlt, h.wired.edges id hlt]
    simp only [bindingEdges, readTarget, keyTarget, h.record_old hlt, h.origin_old hlt,
      h.lookup_old (h.origin_lt hlt)]
  · rw [(wiredGraph_sameReads g d).edges, bindingEdges_wired]
    change ((resolveEdges (buildTables g d) d.firstBinding).binding id).edges = _
    unfold resolveEdges
    have hlt : id < (buildTables g d).bindings.length := (wiredGraph_sameShape g d).length ▸ hid
    rw [binding_mapIdx (buildTables g d) _ hlt,
      if_neg (Nat.not_lt.mpr (h.frozen.firstBinding ▸ hge))]

theorem module_old {m : FrozenModule} (hm : m ∈ base.modules) : m.id < base.modules.length := by
  obtain ⟨i, hi⟩ := mem_iff_getElem?.mp hm
  rw [h.wired.laid.moduleIds i m hi]
  exact (List.getElem?_eq_some_iff.mp hi).1

/-- A module of the graph is one of the base or a new one. -/
theorem module_cases {m : FrozenModule} (hm : m ∈ (wiredGraph g d).modules) :
    m ∈ base.modules ∨ m ∈ (buildTables g d).modules.drop d.firstModule := by
  rw [(wiredGraph_sameShape g d).modules] at hm
  exact mem_or_mem_drop h.frozen.modules h.frozen.firstModule hm

/-- A binding of the graph, as the base has it or as a new one of the frozen
graph. -/
theorem binding_cases (hb : b ∈ (wiredGraph g d).bindings) :
    b ∈ base.bindings ∨
      ∃ b' ∈ (buildTables g d).bindings.drop d.firstBinding, b'.shape = b.shape := by
  obtain ⟨i, hi⟩ := mem_iff_getElem?.mp hb
  rcases Nat.lt_or_ge i base.bindings.length with hlt | hge
  · left
    rw [← binding_of_getElem? hi, h.binding_old hlt]
    exact binding_mem hlt
  · obtain ⟨b', hb', hshape⟩ := (wiredGraph_sameShape g d).getElem? hi
    exact .inr ⟨b', mem_drop_of_ge (h.frozen.firstBinding ▸ hge) hb', hshape.symm⟩

/-- **Every declared read of the graph resolves.** -/
theorem resolved (hc : CheckClean g d) : (wiredGraph g d).Resolved := by
  have hnew := resolveDependencies_resolves (buildTables g d) d hc.resolve
  have hshape := wiredGraph_sameShape g d
  have hlookup : ∀ m key, (wiredGraph g d).lookup m key = (buildTables g d).lookup m key :=
    wiredGraph_lookup g d
  refine ⟨fun id hid => ?_, fun b hb => ?_, fun m hm hook hhook => ?_⟩
  · rcases Nat.lt_or_ge id base.bindings.length with hlt | hge
    · rw [h.origin_old hlt, h.record_old hlt, allResolve_congr (h.lookup_old (h.origin_lt hlt))]
      exact h.wired.resolved.bindings id hlt
    · rw [hshape.origin, hshape.record, allResolve_congr (hlookup _)]
      exact hnew.bindings id (h.frozen.firstBinding ▸ hge) (hshape.length ▸ hid)
  · rcases h.binding_cases hb with hold | ⟨b', hb', hshape'⟩
    · have hcongr := fun key => h.lookup_old (h.wired.laid.origins b hold) key
      obtain ⟨hready, hhooks⟩ := h.wired.resolved.closures b hold
      exact ⟨fun ready hr => (allResolve_congr hcongr).mpr (hready ready hr),
        fun hook hh => (allResolve_congr hcongr).mpr (hhooks hook hh)⟩
    · have horigin : b'.origin = b.origin := congrArg (·.2.1) hshape'
      have hrecord : b'.record = b.record := congrArg (·.2.2) hshape'
      obtain ⟨hready, hhooks⟩ := hnew.closures b' hb'
      rw [hrecord, horigin] at hready hhooks
      exact ⟨fun ready hr => (allResolve_congr (hlookup _)).mpr (hready ready hr),
        fun hook hh => (allResolve_congr (hlookup _)).mpr (hhooks hook hh)⟩
  · rcases h.module_cases hm with hold | hm'
    · exact (allResolve_congr (h.lookup_old (h.module_old hold))).mpr
        (h.wired.resolved.hooks m hold hook hhook)
    · exact (allResolve_congr (hlookup _)).mpr (hnew.modules m hm' hook hhook)

/-! ## Aliases, roles and scopes -/

theorem aliases (hc : CheckClean g d) (hid : id < (wiredGraph g d).bindings.length) {target : Key}
    (halias : ((wiredGraph g d).binding id).record.recipe = .alias target) :
    ∃ t, (wiredGraph g d).lookup ((wiredGraph g d).binding id).origin target =
      some (.binding t) := by
  have hshape := wiredGraph_sameShape g d
  rcases Nat.lt_or_ge id base.bindings.length with hlt | hge
  · rw [h.binding_old hlt] at halias ⊢
    rw [h.lookup_old (h.origin_lt hlt)]
    exact h.wired.aliases id hlt target halias
  · rw [wiredGraph_lookup, hshape.origin]
    rw [hshape.record] at halias
    have hmem : (buildTables g d).binding id ∈ (buildTables g d).bindings.drop d.firstBinding :=
      mem_drop_of_ge (h.frozen.firstBinding ▸ hge) (getElem?_binding (hshape.length ▸ hid))
    have hnil := hc.bindings
    simp only [checkBindings, append_eq_nil_iff] at hnil
    have hnone := flatMap_eq_nil_iff.mp hnil.1.1.2 _ hmem
    simp only [bindingErrors, append_eq_nil_iff, Option.toList_eq_nil_iff] at hnone
    have halias' : ((buildTables g d).binding id).record.recipe = .alias target := halias
    have herror := hnone.1.2
    simp only [aliasError, halias'] at herror
    change ∃ t, (buildTables g d).lookup ((buildTables g d).binding id).origin target = _
    split at herror
    · rename_i t hl
      exact ⟨t, hl⟩
    · cases herror
    · cases herror
    · cases herror

theorem readsInBounds : ReadsInBounds (wiredGraph g d) :=
  Ulo.readsInBounds ((wiredGraph_sameShape g d).laid h.frozen.laid) h.collected h.tabled
    fun _ hid => h.edges hid

theorem namedEnhancers_single (hid : id ∈ namedEnhancers (wiredGraph g d)) :
    (wiredGraph g d).Single id := by
  have hchain : ∀ (k : ℕ) {i : BindingId}, (wiredGraph g d).Single i →
      (wiredGraph g d).Single (throughAliases (wiredGraph g d) k i) := by
    intro k
    induction k with
    | zero => exact fun hi => hi
    | succ k ih =>
      intro i hi
      simp only [throughAliases]
      split
      · rename_i ht
        obtain ⟨target, -, hl⟩ := aliasTarget_eq_some ht
        exact ih (h.tabled.binding _ _ _ hl)
      · exact hi
  obtain ⟨handler, -, hmem⟩ := mem_flatMap.mp hid
  obtain ⟨dep, -, hsome⟩ := mem_filterMap.mp hmem
  cases dep with
  | closure => cases hsome
  | type =>
    dsimp only at hsome
    split at hsome
    · rename_i hl
      cases hsome
      exact hchain _ (h.tabled.binding _ _ _ hl)
    · cases hsome

/-- A contribution has the role that marking gave it: no handler names one. -/
theorem role_contribution (hb : b ∈ (wiredGraph g d).bindings)
    (hkind : b.record.kind = .collection) :
    ∃ u ∈ unmarked, u.record = b.record ∧
      b.role = (markRole (roleTypes g unmarked) u).role := by
  have hshape := wiredGraph_sameShape g d
  obtain ⟨i, hi⟩ := List.mem_iff_getElem?.mp hb
  have hlt : i < g.bindings.length := hshape.length ▸ (List.getElem?_eq_some_iff.mp hi).1
  have hu : i < unmarked.length := h.length_unmarked ▸ hlt
  have hgi : g.binding i = markRole (roleTypes g unmarked) unmarked[i] := by
    refine binding_of_getElem? ?_
    rw [h.frozen.marked, getElem?_map, getElem?_eq_getElem hu]
    rfl
  have hbi := binding_of_getElem? hi
  refine ⟨unmarked[i], getElem_mem hu, ?_, ?_⟩
  · rw [← hbi, hshape.record, hgi]
    exact (congrArg (·.2.2) (markRole_shape _ unmarked[i])).symm
  · rw [← hgi, ← hbi, wiredGraph_role hlt, if_neg]
    rintro ⟨hnamed, -⟩
    rw [← hbi, (h.namedEnhancers_single hnamed).2] at hkind
    cases hkind

/-- Marking makes no type a role type. -/
theorem roleTypes_wired {ty : TypeId}
    (hty : ty ∈ roleTypes (wiredGraph g d) (wiredGraph g d).bindings) :
    ty ∈ roleTypes g unmarked := by
  simp only [roleTypes, mem_append, mem_map, mem_filter, decide_eq_true_eq] at hty
  rcases hty with hty | ⟨b, ⟨hb, hkind, hrole⟩, rfl⟩
  · rw [(wiredGraph_sameShape g d).handlers] at hty
    simp only [roleTypes, mem_append, mem_map]
    exact .inl hty
  · obtain ⟨u, hu, hrecord, hurole⟩ := h.role_contribution hb hkind
    rw [hrole] at hurole
    rw [← hrecord]
    unfold markRole at hurole
    split at hurole
    · rename_i hmark
      exact hmark.2.2
    · simp only [roleTypes, mem_append, mem_map, mem_filter, decide_eq_true_eq]
      exact .inr ⟨u, ⟨hu, hrecord ▸ hkind, hurole.symm⟩, rfl⟩

/-- **The roles are settled**: marking and naming would change none again. -/
theorem rolesSettled : (wiredGraph g d).RolesSettled := by
  refine ⟨fun b hb hkind hrole hty => ?_, fun id hid hrole => ?_⟩
  · obtain ⟨u, -, hrecord, hurole⟩ := h.role_contribution hb hkind
    rw [hrole] at hurole
    unfold markRole at hurole
    split at hurole
    · cases hurole
    · rename_i hnot
      exact hnot ⟨hrecord ▸ hkind, hurole.symm, hrecord ▸ h.roleTypes_wired hty⟩
  · have hlt : id < g.bindings.length :=
      (wiredGraph_sameShape g d).length ▸ (h.namedEnhancers_single hid).1
    rw [wiredGraph_role hlt] at hrole
    split at hrole
    · cases hrole
    · rename_i hnot
      exact hnot ⟨hid, hrole⟩

theorem built (hnew : ∀ b ∈ g.bindings.drop base.bindings.length, b.record.recipe.isFailed = false)
    (hb : b ∈ (wiredGraph g d).bindings) : b.record.recipe.isFailed = false := by
  rcases h.binding_cases hb with hold | ⟨b', hb', hshape⟩
  · exact h.wired.built b hold
  · have hrecord : b'.record = b.record := congrArg (·.2.2) hshape
    rw [← hrecord]
    exact hnew b' (h.frozen.firstBinding ▸ hb')

section

variable (hc : CheckClean g d)
  (hnew : ∀ b ∈ g.bindings.drop base.bindings.length, b.record.recipe.isFailed = false)
include hc hnew

/-- **Every binding is scoped for what it needs.** -/
theorem scopes (hb : b ∈ (wiredGraph g d).bindings) : b.Scoped := by
  obtain ⟨hlt, hbi⟩ := ((wiredGraph_sameShape g d).laid h.frozen.laid).binding_id hb
  have heffective := (wiredGraph_decided g d).effective b.id hlt
  rw [hbi] at heffective
  have herror : scopeErrors (decidedGraph g d) b = [] :=
    flatMap_eq_nil_iff.mp hc.scopes b hb
  have hbuilt := h.built hnew hb
  unfold scopeErrors at herror
  split at herror
  · -- an alias is transient, and has neither hooks nor a readiness check
    rename_i target hrecipe
    obtain ⟨-, hscope, -⟩ := b.record.aliasShape target hrecipe
    rw [FrozenBinding.effectiveOf, hscope] at heffective
    exact ⟨fun _ => by simp [heffective], fun hper => by simp [heffective] at hper⟩
  · rename_i hrecipe
    simp [hrecipe, Recipe.isFailed] at hbuilt
  · split at herror
    · cases herror
    rename_i hrefused
    refine ⟨fun hneeds hsingleton => hrefused ?_, fun hper => ?_⟩
    · rw [hsingleton, FrozenBinding.effectiveOf, hneeds] at heffective
      rw [FrozenBinding.refused, hneeds, Bool.true_and]
      cases hscope : b.record.scope <;> simp_all
    · split at herror
      · cases herror
      · rename_i hhooks
        simpa [hper] using hhooks

omit hc hnew in
/-- The base's closures read what they read, and it needs no execution still. -/
theorem readsOutside_old (hm : m < base.modules.length) {owner : Option BindingId}
    (hreads : ∀ read ∈ deps.reads, ∀ key, read.kind = .collection key →
      readsCollection base key = true) (hout : ReadsOutside base m owner deps) :
    ReadsOutside (wiredGraph g d) m owner deps := by
  have hpasses : ∀ {id : BindingId}, id < base.bindings.length →
      (wiredGraph g d).passesExecution id = base.passesExecution id := fun hid => by
    simp only [Graph.passesExecution, h.binding_old hid]
  intro read hread
  have hr := hout read hread
  unfold ReadOutside at hr ⊢
  split
  · rename_i hkind
    simp only [hkind] at hr
  · rename_i hkind
    simp only [hkind] at hr
  · rename_i hkind
    simp only [hkind] at hr
    rw [h.lookup_old hm]
    split at hr
    · exact hr
    · rename_i hl
      rw [hpasses (h.wired.tabled.binding _ _ _ hl).1]
      exact hr
    · trivial
  · rename_i key hkind
    simp only [hkind] at hr
    rw [h.collection_old (.inr (hreads read hread key hkind))]
    intro id hid
    rw [hpasses ((mem_collection h.wired.laid h.wired.collected).mp hid).1]
    exact hr id hid
  · trivial

omit hc hnew in
/-- **Readiness checks and hooks need no execution.** -/
theorem outside (hc : CheckClean g d) : (wiredGraph g d).Outside := by
  have hcheck := hc.closures
  simp only [checkClosures, append_eq_nil_iff] at hcheck
  obtain ⟨⟨hbindings, hmodules⟩, -⟩ := hcheck
  -- a new binding, as the settled graph has it: that is the graph the check looks at
  have hnew : ∀ b ∈ (wiredGraph g d).bindings, b ∉ base.bindings →
      bindingClosureErrors (settledGraph g d) b = [] := by
    intro b hb hold
    refine flatMap_eq_nil_iff.mp hbindings b ?_
    obtain ⟨i, hi⟩ := mem_iff_getElem?.mp hb
    refine mem_drop_of_ge (l := (wiredGraph g d).bindings) (i := i) ?_ hi
    rw [h.frozen.firstBinding]
    by_contra hlt
    rw [not_le] at hlt
    exact hold (binding_of_getElem? hi ▸ h.binding_old hlt ▸ binding_mem hlt)
  have hwired : ∀ {m : ModuleId} {owner : Option BindingId} {deps : Dependencies},
      ReadsOutside (settledGraph g d) m owner deps →
      ReadsOutside (wiredGraph g d) m owner deps := fun hout => hout
  refine ⟨fun b hb ready hready => ?_, fun b hb hook hhook => ?_, fun m hm hook hhook => ?_⟩
  · by_cases hold : b ∈ base.bindings
    · exact h.readsOutside_old (h.wired.laid.origins b hold)
        (fun read hread => readsCollection_ready hold hready hread)
        (h.wired.outside.ready b hold ready hready)
    · have hnil := (append_eq_nil_iff.mp (hnew b hb hold)).1
      exact hwired (closureErrors_nil
        (flatMap_eq_nil_iff.mp hnil ready (Option.mem_toList.mpr hready)))
  · by_cases hold : b ∈ base.bindings
    · exact h.readsOutside_old (h.wired.laid.origins b hold)
        (fun read hread => readsCollection_hook hold hhook hread)
        (h.wired.outside.hooks b hold hook hhook)
    · have hnil := (append_eq_nil_iff.mp (hnew b hb hold)).2
      exact hwired (closureErrors_nil (flatMap_eq_nil_iff.mp hnil hook hhook))
  · rcases h.module_cases hm with hold | hm'
    · exact h.readsOutside_old (h.module_old hold)
        (fun read hread => readsCollection_moduleHook hold hhook hread)
        (h.wired.outside.modules m hold hook hhook)
    · exact hwired (closureErrors_nil (flatMap_eq_nil_iff.mp
        (flatMap_eq_nil_iff.mp hmodules m hm') hook hhook))

/-- **A wiring that passes its checks answers a wired graph.** -/
theorem wiredGraph_wired : (wiredGraph g d).Wired where
  laid := (wiredGraph_sameShape g d).laid h.frozen.laid
  collected := h.collected
  tabled := h.tabled
  edges _ hid := h.edges hid
  resolved := h.resolved hc
  aliases _ hid _ halias := h.aliases hc hid halias
  built _ hb := h.built hnew hb
  acyclic := (wiredGraph_sameReads g d).acyclic (acyclic_of_no_cycles _ hc.cycles)
  roles := h.rolesSettled
  decided := wiredGraph_decided g d
  scopes _ hb := h.scopes hc hnew hb
  outside := h.outside hc
  connectOrder := rfl

end

end Extending

end Ulo
