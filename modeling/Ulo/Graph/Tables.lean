import Ulo.Graph.Passes

/-!
# What the tables hold

A table of a wired graph leads a key to a single binding of the graph or to a
declared input. The bindings come from the module's own list and from export
lists, which hold single bindings from the start – a module's own export is one,
and a re-export repeats what its module sees. The rounds that resolve re-exports
end when no pending one is seen exactly once.

Adding modules writes the new modules' tables and export lists; those of the
modules before them stay as they are.
-/

namespace Ulo

open List Option

/-- A single binding of the graph. -/
def Graph.Single (g : Graph) (id : BindingId) : Prop :=
  id < g.bindings.length ∧ (g.binding id).record.kind = .single

variable {g : Graph} {first : ℕ} {exported : List (List (Key × BindingId))}

theorem Graph.SameShape.single {g' : Graph} (h : g.SameShape g') {id : BindingId} :
    g'.Single id ↔ g.Single id := by
  simp only [Graph.Single, h.length, h.record]

/-- Export lists that hold single bindings of the graph. -/
def ExportsSingle (g : Graph) (exported : List (List (Key × BindingId))) : Prop :=
  ∀ l ∈ exported, ∀ e ∈ l, g.Single e.2

section Sources

variable {g : Graph} {m : ModuleId} {id : BindingId} {key : Key}

theorem module_mem (h : id ∈ (g.module m).bindings) : g.module m ∈ g.modules := by
  unfold Graph.module at h ⊢
  rcases Nat.lt_or_ge m g.modules.length with hlt | hge
  · simp [hlt]
  · have hnone : g.modules[m]? = none := getElem?_eq_none hge
    rw [getD_eq_getElem?_getD, hnone] at h
    cases h

theorem ownBinding_single (hg : g.Laid) (h : ownBinding g m key = some id) : g.Single id := by
  have hmem := mem_of_find?_eq_some h
  obtain ⟨b, hb, -⟩ := (hg.own _ (module_mem hmem) id).mp hmem
  have hkind := find?_some h
  simp only [decide_eq_true_eq] at hkind
  exact ⟨(List.getElem?_eq_some_iff.mp hb).1, hkind.1⟩

theorem mem_foldl_addOffer {l : List (ModuleId × Key × BindingId)}
    {found : List (ModuleId × BindingId)} {s : ModuleId × BindingId}
    (h : s ∈ l.foldl (addOffer key) found) : s ∈ found ∨ (s.1, key, s.2) ∈ l := by
  induction l generalizing found with
  | nil => exact .inl h
  | cons offer l ih =>
    rcases ih h with hs | hs
    · unfold addOffer at hs
      split at hs
      · rename_i hoffer
        rcases mem_snoc.mp hs with hs | hs
        · exact .inl hs
        · right
          rw [hs, ← hoffer.1]
          exact mem_cons_self
      · exact .inl hs
    · exact .inr (mem_cons_of_mem _ hs)

/-- What a module sees is single bindings. -/
theorem sources_single (hg : g.Laid) (hexported : ExportsSingle g g.exported)
    {s : ModuleId × BindingId} (h : s ∈ sources g m key) : g.Single s.2 := by
  rcases mem_foldl_addOffer h with hs | hs
  · obtain ⟨id, hid, rfl⟩ := mem_map.mp hs
    exact ownBinding_single hg (mem_toList.mp hid)
  · obtain ⟨e, -, he⟩ := mem_flatMap.mp hs
    obtain ⟨⟨k, id⟩, hmem, heq⟩ := mem_map.mp he
    simp only [Prod.mk.injEq] at heq
    obtain ⟨-, -, rfl⟩ := heq
    refine hexported (g.exported.getD e []) ?_ _ hmem
    rcases Nat.lt_or_ge e g.exported.length with hlt | hge
    · simp [hlt]
    · rw [getD_eq_getElem?_getD, getElem?_eq_none hge] at hmem
      cases hmem

theorem tableFor_binding (hg : g.Laid) (hexported : ExportsSingle g g.exported) {m : ModuleId}
    {key : Key} {id : BindingId} (h : (tableFor g m).lookup key = some (.binding id)) :
    g.Single id := by
  rw [tableFor_lookup] at h
  split at h
  · split at h <;> simp at h
  · unfold visibleOf at h
    split at h
    · rename_i source id' hsources
      obtain rfl : id' = id := by simpa using h
      exact sources_single hg hexported (s := (source, id')) (by rw [hsources]; simp)
    · simp at h

theorem tableFor_input {input : Key} (h : (tableFor g m).lookup key = some (.input input)) :
    input = key ∧ key ∈ g.inputs := by
  rw [tableFor_lookup] at h
  split at h
  · split at h
    · rename_i hmem
      simp only [some.injEq, Visible.input.injEq] at h
      exact ⟨h.symm, hmem⟩
    · cases h
  · unfold visibleOf at h
    split at h <;> simp at h

end Sources

/-! ## Export lists -/

/-- **The invariant of the export lists** while modules from `first` on are
added: one list for each module, single bindings in all, and the lists before
`first` as they were. -/
structure ExportState (g : Graph) (first : ℕ) (exported : List (List (Key × BindingId))) :
    Prop where
  length : exported.length = g.modules.length
  single : ExportsSingle g exported
  kept : ∀ i < first, exported.getD i [] = g.exported.getD i []

theorem pushExport_state (h : ExportState g first exported) {e : ModuleId × Key × BindingId}
    (hfirst : first ≤ e.1) (hsingle : g.Single e.2.2) :
    ExportState g first (pushExport exported e) := by
  unfold pushExport
  refine ⟨by simp [h.length], fun l hl x hx => ?_, fun i hi => ?_⟩
  · obtain ⟨i, hi, rfl⟩ := mem_iff_getElem.mp hl
    rw [getElem_modify] at hx
    split at hx
    · rcases mem_snoc.mp hx with hx | rfl
      · exact h.single _ (getElem_mem _) x hx
      · exact hsingle
    · exact h.single _ (getElem_mem _) x hx
  · rw [← h.kept i hi]
    simp [getD_eq_getElem?_getD, Nat.ne_of_gt (hi.trans_le hfirst)]

theorem foldl_pushExport_state (h : ExportState g first exported)
    {es : List (ModuleId × Key × BindingId)} (hes : ∀ e ∈ es, first ≤ e.1 ∧ g.Single e.2.2) :
    ExportState g first (es.foldl pushExport exported) :=
  foldlRecOn es _ h fun _ h e he => pushExport_state h (hes e he).1 (hes e he).2

theorem resolveReexport_single (hg : g.Laid) (h : ExportState g first exported)
    {e : ModuleId × ExportRecord} {x : ModuleId × Key × BindingId}
    (hx : resolveReexport { g with exported := exported } e = some x) :
    x.1 = e.1 ∧ g.Single x.2.2 := by
  have hview : ({ g with exported := exported } : Graph).Laid :=
    ⟨hg.ids, hg.moduleIds, hg.origins, hg.own, hg.handlers⟩
  unfold resolveReexport at hx
  split at hx
  · rename_i source id hsources
    cases hx
    exact ⟨rfl, sources_single hview h.single (s := (source, id)) (by rw [hsources]; simp)⟩
  · cases hx

theorem reexportStep_state (hg : g.Laid)
    (s s' : List (List (Key × BindingId)) × List (ModuleId × ExportRecord))
    (h : ExportState g first s.1 ∧ ∀ e ∈ s.2, first ≤ e.1) (hstep : reexportStep g s = some s') :
    ExportState g first s'.1 ∧ ∀ e ∈ s'.2, first ≤ e.1 := by
  unfold reexportStep at hstep
  dsimp only at hstep
  split at hstep
  · cases hstep
  · cases hstep
    refine ⟨foldl_pushExport_state h.1 fun x hx => ?_,
      fun e he => h.2 e (mem_of_mem_filter he)⟩
    obtain ⟨e, he, hx⟩ := mem_filterMap.mp hx
    obtain ⟨hmodule, hsingle⟩ := resolveReexport_single hg h.1 hx
    exact ⟨hmodule ▸ h.2 e he, hsingle⟩

/-- **The export lists of a graph with modules added.** -/
theorem exportLists_state (hg : g.Laid) {d : Declared} (hlength : g.exported.length = d.firstModule)
    (hle : d.firstModule ≤ g.modules.length) (hsingle : ExportsSingle g g.exported)
    (hexports : ∀ e ∈ d.exports, d.firstModule ≤ e.1) :
    ExportState g d.firstModule (exportLists g d) := by
  have hresized : ExportState g d.firstModule
      (g.exported ++ replicate (g.modules.length - g.exported.length) []) := by
    refine ⟨by simp; omega, fun l hl e he => ?_, fun i hi => ?_⟩
    · rcases mem_append.mp hl with hl | hl
      · exact hsingle l hl e he
      · rw [eq_of_mem_replicate hl] at he
        cases he
    · simp [getD_eq_getElem?_getD, getElem?_append_left (hlength ▸ hi)]
  have hown : ExportState g d.firstModule
      (((d.exports.filter fun e => !e.2.reexport).filterMap (ownExport g)).foldl pushExport
        (g.exported ++ replicate (g.modules.length - g.exported.length) [])) := by
    refine foldl_pushExport_state hresized fun x hx => ?_
    obtain ⟨e, he, hx⟩ := mem_filterMap.mp hx
    obtain ⟨id, hid, rfl⟩ := map_eq_some_iff.mp hx
    exact ⟨hexports e (mem_of_mem_filter he), ownBinding_single hg hid⟩
  exact (Loop.run_inv (reexportStep g) _ (reexportStep_state hg) _ _
    ⟨hown, fun e he => hexports e (mem_of_mem_filter he)⟩).1

/-! ## The end of the re-exports -/

theorem foldl_pushExport_getD (es : List (ModuleId × Key × BindingId))
    {exported : List (List (Key × BindingId))} {i : ModuleId} (hi : i < exported.length) :
    i < (es.foldl pushExport exported).length ∧ (es.foldl pushExport exported).getD i [] =
      exported.getD i [] ++ (es.filter (·.1 = i)).map (·.2) := by
  induction es generalizing exported with
  | nil => simpa using hi
  | cons e es ih =>
    obtain ⟨hlt, hget⟩ := @ih (pushExport exported e) (by simpa [pushExport] using hi)
    refine ⟨hlt, hget.trans ?_⟩
    by_cases he : e.1 = i <;> simp [pushExport, hi, he]

/-- A re-export in the rounds: it is pending, or its module's list has its key. -/
def Awaited (g : Graph) (e : ModuleId × ExportRecord)
    (s : List (List (Key × BindingId)) × List (ModuleId × ExportRecord)) : Prop :=
  e.1 < s.1.length ∧ (e ∈ s.2 ∨
    ∃ id, (boundaryKey (g.module e.1).keyed e.2.key, id) ∈ s.1.getD e.1 [])

theorem reexportStep_awaited {e : ModuleId × ExportRecord} (s s') (hs : Awaited g e s)
    (h : reexportStep g s = some s') : Awaited g e s' ∧ s'.2.length < s.2.length := by
  unfold reexportStep at h
  dsimp only at h
  split at h
  · cases h
  rename_i hsome
  cases h
  obtain ⟨hlt, hget⟩ := foldl_pushExport_getD
    (s.2.filterMap (resolveReexport { g with exported := s.1 })) hs.1
  refine ⟨⟨hlt, ?_⟩, ?_⟩
  · rw [hget]
    rcases hs.2 with hpending | ⟨id, hid⟩
    · cases hview : resolveReexport { g with exported := s.1 } e with
      | none => exact .inl (mem_filter.mpr ⟨hpending, by simp [hview]⟩)
      | some x =>
        have hx : x.1 = e.1 ∧ x.2.1 = boundaryKey (g.module e.1).keyed e.2.key := by
          unfold resolveReexport at hview
          split at hview <;> cases hview
          exact ⟨rfl, rfl⟩
        refine .inr ⟨x.2.2, mem_append_right _ (mem_map.mpr ⟨x, mem_filter.mpr
          ⟨mem_filterMap.mpr ⟨e, hpending, hview⟩, by simp [hx.1]⟩, by rw [← hx.2]⟩)⟩
    · exact .inr ⟨id, mem_append_left _ hid⟩
  · obtain ⟨x, hx⟩ := exists_mem_of_ne_nil _ (mt isEmpty_iff.mpr hsome)
    obtain ⟨e', he', hview⟩ := mem_filterMap.mp hx
    exact length_filter_lt_length_iff_exists.mpr ⟨e', he', by simp [hview]⟩

/-- **The rounds of re-exports reach their end.** Afterwards a re-export is in its module's list,
or its module does not see its key exactly once. -/
theorem exportLists_settled (g : Graph) (d : Declared) {e : ModuleId × ExportRecord}
    (he : e ∈ d.exports) (hre : e.2.reexport = true) (hm : e.1 < g.modules.length) :
    (∃ id, (boundaryKey (g.module e.1).keyed e.2.key, id) ∈ (exportLists g d).getD e.1 []) ∨
      ∀ seen, sources { g with exported := exportLists g d } e.1 e.2.key ≠ [seen] := by
  have hresized :
      e.1 < (g.exported ++ replicate (g.modules.length - g.exported.length) []).length :=
    Nat.lt_of_lt_of_le hm (by simp; omega)
  obtain ⟨⟨-, hawaited⟩, hend⟩ := Loop.run_spec (reexportStep g) (Awaited g e) (·.2.length)
    reexportStep_awaited _ (_, d.exports.filter fun e => e.2.reexport)
    ⟨(foldl_pushExport_getD _ hresized).1, .inl (mem_filter.mpr ⟨he, hre⟩)⟩ le_rfl
  refine hawaited.symm.imp_right fun hpending seen hseen => ?_
  unfold reexportStep at hend
  dsimp only at hend
  split at hend
  · rename_i hempty
    have hnone := filterMap_eq_nil_iff.mp (isEmpty_iff.mp hempty) e hpending
    unfold resolveReexport at hnone
    split at hnone
    · cases hnone
    · rename_i hother
      exact hother _ _ hseen
  · cases hend

/-- A module that imports a second, which imports a third that has a binding. -/
def chainGraph : Graph where
  modules := [{ (default : FrozenModule) with imports := [1] },
    { (default : FrozenModule) with id := 1, imports := [2] },
    { (default : FrozenModule) with id := 2, bindings := [0] }]
  bindings := [{ (default : FrozenBinding) with
    origin := 2, record :=
      { primary := ⟨1, unitType⟩, scope := .singleton, recipe := .construct 1 } }]

/-- The third exports its binding, and the others what they import. -/
def chainDeclared : Declared where
  exports := [(0, { key := ⟨1, unitType⟩, reexport := true }),
    (1, { key := ⟨1, unitType⟩, reexport := true }), (2, { key := ⟨1, unitType⟩ })]

/-- The first sees the key only after the round in which the second has re-exported it. -/
theorem exportLists_settled_chain :
    resolveReexport { chainGraph with exported := [[], [], [(⟨1, unitType⟩, 0)]] }
      (0, { key := ⟨1, unitType⟩, reexport := true }) = none ∧
    ∃ id, (⟨1, unitType⟩, id) ∈ (exportLists chainGraph chainDeclared).getD 0 [] :=
  ⟨by decide, (exportLists_settled chainGraph chainDeclared mem_cons_self rfl
    (by decide)).resolve_right fun hnot => hnot (1, 0) (by decide)⟩

/-! ## Tables -/

/-- **Tables that lead to single bindings and to declared inputs.** -/
structure Graph.Tabled (g : Graph) : Prop where
  visibility : g.visibility.length = g.modules.length
  exported : g.exported.length = g.modules.length
  exports : ExportsSingle g g.exported
  binding : ∀ m key id, g.lookup m key = some (.binding id) → g.Single id
  input : ∀ m key input, g.lookup m key = some (.input input) → input = key ∧ key ∈ g.inputs

section Build

variable {base g : Graph} {d : Declared}

section

variable (hvis : g.visibility = base.visibility) (hlength : base.visibility.length = d.firstModule)
include hvis hlength

theorem buildTables_lookup_old {m : ℕ} (hm : m < d.firstModule) (key : Key) :
    (buildTables g d).lookup m key = base.lookup m key := by
  have htable : (buildTables g d).visibility[m]? = base.visibility[m]? := by
    simp only [buildTables, hvis, getElem?_mapIdx]
    rw [getElem?_append_left (by omega)]
    simp only [hm, if_true, Option.map_id']
  simp only [Graph.lookup, getD_eq_getElem?_getD, htable]

theorem buildTables_lookup_new {m : ℕ} (hm : d.firstModule ≤ m) (hlt : m < g.modules.length)
    (key : Key) : (buildTables g d).lookup m key =
      (tableFor { g with exported := exportLists g d } m).lookup key := by
  have htable : (buildTables g d).visibility[m]? =
      some (tableFor { g with exported := exportLists g d } m) := by
    simp only [buildTables, hvis, getElem?_mapIdx]
    rw [getElem?_append_right (by omega), getElem?_replicate, if_pos (by omega),
      map_some, if_neg (by omega)]
  simp only [Graph.lookup, getD_eq_getElem?_getD, htable, getD_some]

end

theorem buildTables_visibility_length (hle : g.visibility.length ≤ g.modules.length) :
    (buildTables g d).visibility.length = g.modules.length := by
  simp only [buildTables, length_mapIdx, length_append, length_replicate]
  omega

theorem lookup_ge {m : ModuleId} (h : g.visibility.length ≤ m) (key : Key) :
    g.lookup m key = none := by
  simp [Graph.lookup, h]

end Build

end Ulo
