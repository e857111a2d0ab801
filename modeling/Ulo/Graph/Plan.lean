import Ulo.Graph.Freeze

/-!
# What a test plan leaves behind

Overrides replace recipes in place, or split a second key off into a binding of
its own; a replaced collection takes its contributions out of every node and
moves the positions behind them. This module shows that the marks of a node –
which records are controllers, which contributions are enhancers – still point
at records of their kind afterwards, and that a plan without errors leaves no
failed value behind.
-/

namespace Ulo

open List Option

/-- **What freezing may rely on in a node**: the marks point at records of
their kind. -/
structure ModuleContent.Marked (c : ModuleContent) : Prop where
  controllers : ∀ k ∈ c.controllers, ∃ r, c.bindings[k.binding]? = some r ∧
    r.controller = true ∧ r.kind = .single
  enhancers : ∀ e ∈ c.enhancers, ∃ r, c.bindings[e]? = some r ∧ r.kind = .collection

theorem ModuleContent.WellFormed.marked {c : ModuleContent} (h : c.WellFormed) : c.Marked where
  controllers k hk := by
    obtain ⟨r, hr, hcontroller, hkind, -⟩ := h.controllers_bound k hk
    exact ⟨r, hr, hcontroller, hkind⟩
  enhancers := h.enhancers_bound

/-- Every node's marks point at records of their kind. -/
def Registry.Marked (r : Registry) : Prop := ∀ node ∈ r.nodes, node.toModuleContent.Marked

/-- Some node holds the record. -/
def Registry.Holds (r : Registry) (record : BindingRecord) : Prop :=
  ∃ node ∈ r.nodes, record ∈ node.bindings

/-- The record at a position of a node. -/
def Registry.recordAt (r : Registry) (index position : ℕ) : Option BindingRecord :=
  r.nodes[index]?.bind fun node => node.bindings[position]?

/-! ## Overrides -/

section

variable (node : ModuleNode) (position : ℕ) (ov : Override)
include node position ov

theorem replaceRecipe_bindings (i : ℕ) : ∀ record, node.bindings[i]? = some record →
      ∃ record', (replaceRecipe node position ov).bindings[i]? = some record' ∧
        record'.controller = record.controller ∧ record'.kind = record.kind := by
  intro record hi
  have hlt := (List.getElem?_eq_some_iff.mp hi).1
  unfold replaceRecipe
  split
  · exact ⟨record, hi, rfl, rfl⟩
  rename_i old hold
  by_cases hpos : position = i
  · subst hpos
    obtain rfl : old = record := by simpa [hold] using hi
    split
    · exact ⟨old.override ov, by simp [hlt], rfl, rfl⟩
    · refine ⟨old.withoutAlso ov.key, ?_, rfl, rfl⟩
      rw [List.getElem?_append_left (by simpa using hlt)]
      simp [hlt]
  · split
    · exact ⟨record, by simp [List.getElem?_set_ne hpos, hi], rfl, rfl⟩
    · refine ⟨record, ?_, rfl, rfl⟩
      rw [List.getElem?_append_left (by simpa using hlt), List.getElem?_set_ne hpos, hi]

/-- A record that fails after an override failed before it. -/
theorem replaceRecipe_failed (i : ℕ) (record : BindingRecord)
    (h : (replaceRecipe node position ov).bindings[i]? = some record)
    (hfailed : record.recipe.isFailed = true) :
    ∃ old, node.bindings[i]? = some old ∧ old.recipe.isFailed = true := by
  have hnew : ∀ ov : Override, ov.recipe.toRecipe.isFailed = false := fun ov => by
    cases ov.recipe <;> rfl
  unfold replaceRecipe at h
  split at h
  · exact ⟨record, h, hfailed⟩
  rename_i old hold
  have hset : ∀ new : BindingRecord, (new.recipe.isFailed = true → old.recipe.isFailed = true) →
      (node.bindings.set position new)[i]? = some record →
      ∃ old, node.bindings[i]? = some old ∧ old.recipe.isFailed = true := by
    intro new hkeep hi
    by_cases hpos : position = i
    · subst hpos
      obtain ⟨hlt, rfl⟩ := List.getElem?_eq_some_iff.mp hi
      rw [List.getElem_set_self] at hfailed
      exact ⟨old, hold, hkeep hfailed⟩
    · rw [getElem?_set_ne hpos] at hi
      exact ⟨record, hi, hfailed⟩
  split at h
  · exact hset (old.override ov) (fun hf => by simp [BindingRecord.override, hnew] at hf) h
  · rcases Nat.lt_or_ge i node.bindings.length with hlt | hge
    · rw [getElem?_append_left (by simpa using hlt)] at h
      exact hset (old.withoutAlso ov.key) id h
    · -- the record split off at the end is the override's own
      rw [getElem?_append_right (by simpa using hge)] at h
      have : record = ov.splitRecord old := by
        rw [getElem?_singleton] at h
        split at h <;> simp_all
      simp [this, Override.splitRecord, hnew] at hfailed

theorem replaceRecipe_marked (h : node.toModuleContent.Marked) :
    (replaceRecipe node position ov).toModuleContent.Marked := by
  have hmarks : (replaceRecipe node position ov).controllers = node.controllers ∧
      (replaceRecipe node position ov).enhancers = node.enhancers := by
    unfold replaceRecipe
    split
    · exact ⟨rfl, rfl⟩
    · split <;> exact ⟨rfl, rfl⟩
  refine ⟨fun k hk => ?_, fun e he => ?_⟩
  · obtain ⟨r, hr, hcontroller, hkind⟩ := h.controllers k (hmarks.1 ▸ hk)
    obtain ⟨r', hr', hc, hk'⟩ := replaceRecipe_bindings node position ov _ r hr
    exact ⟨r', hr', hc.trans hcontroller, hk'.trans hkind⟩
  · obtain ⟨r, hr, hkind⟩ := h.enhancers e (hmarks.2 ▸ he)
    obtain ⟨r', hr', -, hk'⟩ := replaceRecipe_bindings node position ov _ r hr
    exact ⟨r', hr', hk'.trans hkind⟩

end

theorem Registry.WellFormed.marked {r : Registry} (h : r.WellFormed) : r.Marked :=
  fun node hnode => (h node hnode).marked

/-- **What a plan leaves of a registry**: the number of nodes, their order, and
their marks. -/
structure Registry.Planned (r r' : Registry) : Prop where
  length : r'.nodes.length = r.nodes.length
  imports : r'.imports = r.imports
  postOrder : r'.postOrder = r.postOrder
  marked : r.Marked → r'.Marked

theorem Registry.Planned.trans {r₁ r₂ r₃ : Registry} (h₁ : r₁.Planned r₂)
    (h₂ : r₂.Planned r₃) : r₁.Planned r₃ where
  length := h₂.length.trans h₁.length
  imports := h₂.imports.trans h₁.imports
  postOrder := h₂.postOrder.trans h₁.postOrder
  marked := h₂.marked ∘ h₁.marked

/-- **What an override keeps** besides: every record that does not fail. -/
structure Registry.Overridden (r r' : Registry) : Prop extends r.Planned r' where
  failed : ∀ i p record, r'.recordAt i p = some record → record.recipe.isFailed = true →
    ∃ old, r.recordAt i p = some old ∧ old.recipe.isFailed = true

theorem Registry.Overridden.refl (r : Registry) : r.Overridden r :=
  ⟨⟨rfl, rfl, rfl, id⟩, fun _ _ record h hf => ⟨record, h, hf⟩⟩

theorem Registry.Overridden.trans {r₁ r₂ r₃ : Registry} (h₁ : r₁.Overridden r₂)
    (h₂ : r₂.Overridden r₃) : r₁.Overridden r₃ where
  toPlanned := h₁.toPlanned.trans h₂.toPlanned
  failed i p record h hf := by
    obtain ⟨old, hold, hfold⟩ := h₂.failed i p record h hf
    exact h₁.failed i p old hold hfold

/-- One replaced recipe. -/
theorem overridden_modify (r : Registry) (module position : ℕ) (ov : Override) :
    r.Overridden
      { r with nodes := r.nodes.modify module (replaceRecipe · position ov) } where
  length := length_modify ..
  imports := rfl
  postOrder := rfl
  marked h node hnode := by
    obtain ⟨i, hi, rfl⟩ := mem_iff_getElem.mp hnode
    rw [getElem_modify]
    split
    · exact replaceRecipe_marked _ position ov (h _ (getElem_mem _))
    · exact h _ (getElem_mem _)
  failed i p record h hf := by
    simp only [Registry.recordAt, getElem?_modify] at h ⊢
    cases hn : r.nodes[i]? with
    | none => simp [hn] at h
    | some node =>
      simp only [hn, Option.map_eq_map, Option.map_some, Option.bind_some] at h ⊢
      split at h
      · exact replaceRecipe_failed node position ov p record h hf
      · exact ⟨record, h, hf⟩

theorem overridden_foldl (ov : Override) (found : List (ℕ × ℕ)) (r : Registry) :
    r.Overridden (found.foldl (fun r (module, position) =>
      { r with nodes := r.nodes.modify module (replaceRecipe · position ov) }) r) := by
  induction found generalizing r with
  | nil => exact .refl r
  | cons f found ih => exact (overridden_modify r f.1 f.2 ov).trans (ih _)

theorem applyOverride_overridden (names : List ModuleName) (s : Registry × List WiringError)
    (ov : Override) : s.1.Overridden (applyOverride names s ov).1 := by
  unfold applyOverride
  dsimp only
  split
  · exact .refl _
  split
  · exact .refl _
  split
  · exact .refl _
  · split
    · exact .refl _
    · split
      · exact .refl _
      · exact overridden_foldl ov _ _

theorem applyOverrides_overridden (r : Registry) (names : List ModuleName)
    (overrides : List Override) : r.Overridden (applyOverrides r names overrides).1 := by
  unfold applyOverrides
  suffices h : ∀ s : Registry × List WiringError,
      s.1.Overridden (overrides.foldl (applyOverride names) s).1 from h (r, [])
  induction overrides with
  | nil => exact fun s => .refl s.1
  | cons ov overrides ih =>
    exact fun s => (applyOverride_overridden names s ov).trans (ih (applyOverride names s ov))

/-! ## Replaced collections -/

theorem removeContributions_marked (node : ModuleNode) (key : Key)
    (h : node.toModuleContent.Marked) :
    (removeContributions node key).toModuleContent.Marked := by
  -- a record that stays is found at its shifted position
  have hshift : ∀ (i : ℕ) (r : BindingRecord), node.bindings[i]? = some r →
      contributesTo key r = false →
      (node.bindings.filter fun r => !contributesTo key r)[
        if i < node.bindings.length then
          i - (node.bindings.take i).countP (contributesTo key)
        else i]? = some r := by
    intro i r hr hkeep
    rw [if_pos (List.getElem?_eq_some_iff.mp hr).1]
    exact List.getElem?_filter_not _ _ _ _ hr hkeep
  refine ⟨fun k hk => ?_, fun e he => ?_⟩
  · obtain ⟨c, hc, rfl⟩ := mem_map.mp hk
    obtain ⟨r, hr, hcontroller, hkind⟩ := h.controllers c hc
    exact ⟨r, hshift _ r hr (by simp [contributesTo, hkind]), hcontroller, hkind⟩
  · obtain ⟨position, hpos, rfl⟩ := mem_map.mp he
    obtain ⟨hmem, hstays⟩ := mem_filter.mp hpos
    obtain ⟨r, hr, hkind⟩ := h.enhancers position hmem
    exact ⟨r, hshift _ r hr (by simpa [hr] using hstays), hkind⟩

/-- **What a replaced collection keeps** besides: of the failed records, none that
contributed to its key. -/
structure Registry.Recollected (keys : List Key) (r r' : Registry) : Prop
    extends r.Planned r' where
  failed : ∀ record, r'.Holds record → record.recipe.isFailed = true →
    r.Holds record ∧ ∀ key ∈ keys, contributesTo key record = false

theorem removeContributions_holds (r : Registry) (key : Key) (record : BindingRecord)
    (h : { r with nodes := r.nodes.map (removeContributions · key) }.Holds record) :
    r.Holds record ∧ contributesTo key record = false := by
  obtain ⟨node, hnode, hmem⟩ := h
  obtain ⟨old, hold, rfl⟩ := mem_map.mp hnode
  obtain ⟨hrecord, hkeep⟩ := mem_filter.mp hmem
  exact ⟨⟨old, hold, hrecord⟩, by simpa using hkeep⟩

theorem applyCollection_recollected (s : Registry × List WiringError)
    (co : CollectionOverride) : s.1.Recollected [co.key] (applyCollection s co).1 := by
  obtain ⟨r, errors⟩ := s
  have hmap : ∀ node ∈ r.nodes.map (removeContributions · co.key), r.Marked →
      node.toModuleContent.Marked := by
    intro node hnode hr
    obtain ⟨old, hold, rfl⟩ := mem_map.mp hnode
    exact removeContributions_marked old co.key (hr old hold)
  have hitems : ∀ node : ModuleNode, node.toModuleContent.Marked →
      ({ node with bindings := node.bindings ++ co.items.map co.itemRecord } :
        ModuleNode).toModuleContent.Marked := by
    intro node hnode
    have hlt : ∀ {i : ℕ} {r : BindingRecord}, node.bindings[i]? = some r →
        (node.bindings ++ co.items.map co.itemRecord)[i]? = some r := fun h => by
      rw [List.getElem?_append_left (List.getElem?_eq_some_iff.mp h).1, h]
    refine ⟨fun k hk => ?_, fun e he => ?_⟩
    · obtain ⟨r, hr, hrest⟩ := hnode.controllers k hk
      exact ⟨r, hlt hr, hrest⟩
    · obtain ⟨r, hr, hkind⟩ := hnode.enhancers e he
      exact ⟨r, hlt hr, hkind⟩
  unfold applyCollection
  dsimp only
  split
  · refine ⟨⟨length_map _, rfl, rfl, fun hr node hnode => hmap node hnode hr⟩,
      fun record h _ => ?_⟩
    obtain ⟨hr, hkeep⟩ := removeContributions_holds r co.key record h
    exact ⟨hr, by simpa using hkeep⟩
  · refine ⟨⟨by simp, rfl, rfl, fun hr node hnode => ?_⟩, fun record h hf => ?_⟩
    · obtain ⟨i, hi, rfl⟩ := mem_iff_getElem.mp hnode
      rw [getElem_modify]
      split
      · exact hitems _ (hmap _ (getElem_mem _) hr)
      · exact hmap _ (getElem_mem _) hr
    · -- an item is a value, so a failed record is one that stayed
      obtain ⟨node, hnode, hmem⟩ := h
      obtain ⟨i, hi, rfl⟩ := mem_iff_getElem.mp hnode
      have hold : record ∈ ((r.nodes.map (removeContributions · co.key)).get
          ⟨i, by simpa using hi⟩).bindings := by
        rw [getElem_modify] at hmem
        split at hmem
        · rcases mem_append.mp hmem with hmem | hmem
          · exact hmem
          · obtain ⟨item, -, rfl⟩ := mem_map.mp hmem
            simp [CollectionOverride.itemRecord, Recipe.isFailed] at hf
        · exact hmem
      obtain ⟨hr, hkeep⟩ := removeContributions_holds r co.key record
        ⟨_, get_mem _ _, hold⟩
      exact ⟨hr, by simpa using hkeep⟩

theorem applyCollections_recollected (r : Registry) (collections : List CollectionOverride) :
    r.Recollected (collections.map (·.key)) (applyCollections r collections).1 := by
  unfold applyCollections
  suffices h : ∀ s : Registry × List WiringError,
      s.1.Recollected (collections.map (·.key)) (collections.foldl applyCollection s).1 from
    h (r, [])
  induction collections with
  | nil => exact fun s => ⟨⟨rfl, rfl, rfl, id⟩, fun record h _ => ⟨h, by simp⟩⟩
  | cons co collections ih =>
    intro s
    have hone := applyCollection_recollected s co
    have hrest := ih (applyCollection s co)
    refine ⟨hone.toPlanned.trans hrest.toPlanned, fun record h hf => ?_⟩
    obtain ⟨hmid, hkeys⟩ := hrest.failed record h hf
    obtain ⟨hr, hkey⟩ := hone.failed record hmid hf
    refine ⟨hr, fun key hmem => ?_⟩
    rcases mem_cons.mp hmem with rfl | hmem
    · exact hkey co.key (by simp)
    · exact hkeys key hmem

/-! ## Failed values -/

theorem length_failed_positions (l : List BindingRecord) (n : ℕ) :
    ((l.zipIdx n).filterMap fun (record, position) =>
      if record.recipe.isFailed then some position else none).length =
      l.countP (·.recipe.isFailed) := by
  induction l generalizing n with
  | nil => rfl
  | cons record l ih =>
    cases hf : record.recipe.isFailed <;> simp [zipIdx_cons, hf, ih]

variable {r : Registry} {record : BindingRecord}

/-- Every failed record is paired with a failure. -/
theorem mem_failures (hr : r.WellFormed) {i p : ℕ} (h : r.recordAt i p = some record)
    (hf : record.recipe.isFailed = true) : ∃ failure, (i, p, failure) ∈ failures r := by
  obtain ⟨node, hnode, hrecord⟩ := bind_eq_some_iff.mp h
  have hpaired := (hr node (mem_of_getElem? hnode)).failures_paired
  set failed := node.bindings.zipIdx.filterMap fun (record, position) =>
    if record.recipe.isFailed then some position else none with hfailed
  have hmem : p ∈ failed := by
    refine mem_filterMap.mpr ⟨(record, p), ?_, by simp [hf]⟩
    exact mem_zipIdx_iff_getElem?.mpr hrecord
  obtain ⟨k, hk, hkp⟩ := mem_iff_getElem.mp hmem
  have hk' : k < node.failures.length := by
    rw [hpaired, ← length_failed_positions node.bindings 0]
    exact hk
  refine ⟨node.failures[k], mem_flatMap.mpr ⟨(node, i), ?_, ?_⟩⟩
  · exact mem_zipIdx_iff_getElem?.mpr hnode
  · refine mem_map.mpr ⟨(p, node.failures[k]), ?_, rfl⟩
    have hget : (failed.zip node.failures)[k]? = some (p, node.failures[k]) := by
      rw [getElem?_zip_eq_some]
      exact ⟨by simp [hk, hkp], by simp [hk']⟩
    exact mem_of_getElem? hget

/-- A failure that is not reported belongs to a replaced collection. -/
theorem failureErrors_nil {names : List ModuleName} {keys : List Key}
    {found : List (ℕ × ℕ × ValueFailure)} (h : failureErrors names r keys found = []) {i p : ℕ}
    {failure : ValueFailure} (hmem : (i, p, failure) ∈ found)
    (hrecord : r.recordAt i p = some record) (hf : record.recipe.isFailed = true) :
    record.kind = .collection ∧ recordKey record ∈ keys := by
  obtain ⟨node, hnode, hat⟩ := bind_eq_some_iff.mp hrecord
  have hnode' : r.node i = node := by simp [Registry.node, hnode]
  have hnone := filterMap_eq_nil_iff.mp h (i, p, failure) hmem
  simp only [hnode', hat, bind_some, hf] at hnone
  by_contra hc
  simp [hc] at hnone

/-! ## The plan as a whole -/

theorem Registry.Holds.recordAt (h : r.Holds record) : ∃ i p, r.recordAt i p = some record := by
  obtain ⟨node, hnode, hmem⟩ := h
  obtain ⟨i, hi⟩ := mem_iff_getElem?.mp hnode
  obtain ⟨p, hp⟩ := mem_iff_getElem?.mp hmem
  exact ⟨i, p, by simp [Registry.recordAt, hi, hp]⟩

section Plan

variable {n : ℕ} {r : Registry} (hr : r.WellFormed) (names : List ModuleName)
  (plan : Option (TestPlan n))

theorem applyPlan_planned : r.Planned (applyPlan r names plan).1 :=
  (applyOverrides_overridden ..).toPlanned.trans (applyCollections_recollected ..).toPlanned

include hr

/-- **A plan without errors leaves no failed record.** -/
theorem applyPlan_built (herr : (applyPlan r names plan).2 = []) {record : BindingRecord}
    (h : (applyPlan r names plan).1.Holds record) : record.recipe.isFailed = false := by
  have hov := applyOverrides_overridden r names ((plan.map (·.overrides)).getD [])
  by_contra hf
  rw [Bool.not_eq_false] at hf
  have hco := applyCollections_recollected
    (applyOverrides r names ((plan.map (·.overrides)).getD [])).1
    ((plan.map (·.collections)).getD [])
  obtain ⟨hholds, hkeys⟩ := hco.failed record h hf
  obtain ⟨i, p, hat⟩ := hholds.recordAt
  -- the record failed before the overrides, so its failure was found
  obtain ⟨old, hold, hfold⟩ := hov.failed i p record hat hf
  obtain ⟨failure, hfound⟩ := mem_failures hr hold hfold
  have hnone := (append_eq_nil_iff.mp (append_eq_nil_iff.mp herr).1).2
  obtain ⟨hkind, hkey⟩ := failureErrors_nil hnone hfound hat hf
  have hstays := hkeys _ hkey
  simp [contributesTo, hkind] at hstays

end Plan

end Ulo
