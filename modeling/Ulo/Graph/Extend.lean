import Ulo.Graph.Wired

/-!
# Extending a wired graph

Wiring runs its passes over base and new bindings together, and most of them
look at every binding. This module shows that the base part comes out as it
went in: its tables are kept, its edges lead to the same bindings because the
load was refused contributions to anything the base reads, no role of a base
binding changes, and so neither does the need for an execution, nor any scope.

An application is wired as an extension of the empty graph, and a load as one of
the graph it finds (`Extending`); what the checks then guarantee is shown once
for both.
-/

namespace Ulo

open List

/-- **A registry frozen after a wired graph**, with what admits it: past the
empty graph it brings no handlers and no inputs, and contributes to nothing that
the base holds or reads as a collection. -/
structure Extending (base : Graph) (r : Registry) (load : Option ℕ)
    (unmarked : List FrozenBinding) (g : Graph) (d : Declared) : Prop where
  wired : base.Wired
  frozen : Frozen base r load unmarked g d
  handlers : base.modules ≠ [] → g.handlers = base.handlers
  inputs : base.modules ≠ [] → g.inputs = base.inputs
  collections : ∀ key, key ∈ base.collections ∨ readsCollection base key = true →
    contributionsTo key (g.bindings.drop base.bindings.length) = []
  roles : ∀ b ∈ unmarked, RoleChecked (roleTypes g unmarked)
    (roleTypes g (unmarked.take base.bindings.length)) base.bindings.length b

/-! ## What counts as a base reader -/

variable {read : Read} {base : Graph} {b : FrozenBinding} {hook : HookRecord} {key : Key}

theorem readsCollection_of_mem {d : Dependencies} (hread : read ∈ d.reads)
    (hkind : read.kind = .collection key) : d.readsCollection key = true :=
  any_eq_true.mpr ⟨read, hread, by simp [hkind]⟩

/-- A readiness check that reads a collection. -/
theorem readsCollection_ready (hb : b ∈ base.bindings) {ready : ReadyRecord}
    (hready : b.record.ready = some ready) (hread : read ∈ ready.dependencies.reads) (key : Key)
    (hkind : read.kind = .collection key) : readsCollection base key = true := by
  simp only [readsCollection, Bool.or_eq_true, any_eq_true]
  refine .inl (.inl ⟨b, hb, .inl (.inr ?_)⟩)
  simp [hready, readsCollection_of_mem hread hkind]

/-- A hook that reads a collection. -/
theorem readsCollection_hook (hb : b ∈ base.bindings) (hhook : hook ∈ b.record.hooks)
    (hread : read ∈ hook.dependencies.reads) (key : Key) (hkind : read.kind = .collection key) :
    readsCollection base key = true := by
  simp only [readsCollection, Bool.or_eq_true, any_eq_true]
  exact .inl (.inl ⟨b, hb, .inr ⟨hook, hhook, readsCollection_of_mem hread hkind⟩⟩)

/-- A module's hook that reads a collection. -/
theorem readsCollection_moduleHook {m : FrozenModule} (hm : m ∈ base.modules)
    (hhook : hook ∈ m.hooks) (hread : read ∈ hook.dependencies.reads) (key : Key)
    (hkind : read.kind = .collection key) : readsCollection base key = true := by
  simp only [readsCollection, Bool.or_eq_true, any_eq_true]
  exact .inl (.inr ⟨m, hm, hook, hhook, readsCollection_of_mem hread hkind⟩)

namespace Extending

variable {base : Graph} {r : Registry} {load : Option ℕ} {unmarked : List FrozenBinding}
  {g : Graph} {d : Declared} (h : Extending base r load unmarked g d) {m : ModuleId} {i : ℕ}
include h

/-! ## Tables -/

theorem modules_le : base.modules.length ≤ g.modules.length := h.frozen.modules.length_le

theorem length_unmarked : unmarked.length = g.bindings.length := by
  rw [h.frozen.marked, length_map]

theorem bindings_le : base.bindings.length ≤ g.bindings.length :=
  h.length_unmarked ▸ h.frozen.bindings.length_le

theorem visibility_length : base.visibility.length = d.firstModule :=
  h.wired.tabled.visibility.trans h.frozen.firstModule.symm

/-- **A base module sees what it saw.** -/
theorem lookup_old (hm : m < base.modules.length) (key : Key) :
    (wiredGraph g d).lookup m key = base.lookup m key := by
  rw [wiredGraph_lookup]
  exact buildTables_lookup_old h.frozen.visibility h.visibility_length
    (h.frozen.firstModule ▸ hm) key

/-! ## Bindings -/

section

variable (hi : i < base.bindings.length)
include hi

theorem getElem?_unmarked : unmarked[i]? = some (base.binding i) := by
  obtain ⟨new, rfl⟩ := h.frozen.bindings
  rw [getElem?_append_left hi, getElem?_binding hi]

theorem binding_frozen : g.binding i = markRole (roleTypes g unmarked) (base.binding i) := by
  refine binding_of_getElem? ?_
  rw [h.frozen.marked, getElem?_map, h.getElem?_unmarked hi]
  rfl

theorem shape_old : ((wiredGraph g d).binding i).shape = (base.binding i).shape := by
  rw [(wiredGraph_sameShape g d).binding, h.binding_frozen hi, markRole_shape]

theorem record_old : ((wiredGraph g d).binding i).record = (base.binding i).record :=
  congrArg (·.2.2) (h.shape_old hi)

theorem origin_old : ((wiredGraph g d).binding i).origin = (base.binding i).origin :=
  congrArg (·.2.1) (h.shape_old hi)

theorem origin_lt : (base.binding i).origin < base.modules.length :=
  h.wired.laid.origins _ (binding_mem hi)

theorem edges_old : ((wiredGraph g d).binding i).edges = (base.binding i).edges := by
  have hlt : i < (buildTables g d).bindings.length := hi.trans_le h.bindings_le
  rw [(wiredGraph_sameReads g d).edges]
  change ((resolveEdges (buildTables g d) d.firstBinding).binding i).edges = _
  unfold resolveEdges
  rw [binding_mapIdx (buildTables g d) _ hlt, if_pos (h.frozen.firstBinding ▸ hi)]
  change (g.binding i).edges = _
  rw [h.binding_frozen hi]
  unfold markRole
  split <;> rfl

end

/-! ## What base bindings read -/

/-- **A collection the base holds or reads** stays as it is. -/
theorem collection_old (hkey : key ∈ base.collections ∨ readsCollection base key = true) :
    (wiredGraph g d).collection key = base.collection key := by
  rw [wiredGraph_collection, Graph.collection, h.frozen.collections, h.collections key hkey]
  rfl

section

variable (hi : i < base.bindings.length)
include hi

theorem edgeDeps_old {e : Edge} (he : e ∈ (base.binding i).edges) :
    (wiredGraph g d).edgeDeps e = base.edgeDeps e := by
  unfold Graph.edgeDeps
  split
  · rfl
  · rename_i key htarget
    refine h.collection_old (.inr ?_)
    have hany : (base.binding i).edges.any (·.target = .collection key) = true :=
      any_eq_true.mpr ⟨e, he, by simp [htarget]⟩
    simp only [readsCollection, Bool.or_eq_true, any_eq_true]
    exact .inl (.inl ⟨base.binding i, binding_mem hi, .inl (.inl (any_eq_true.mp hany))⟩)
  · rfl
  · rfl
  · rfl

theorem aliasTarget_old : (wiredGraph g d).aliasTarget i = base.aliasTarget i := by
  simp only [Graph.aliasTarget, h.record_old hi, h.origin_old hi, h.lookup_old (h.origin_lt hi)]

/-- **A base binding's construction reads what it read.** -/
theorem constructionDeps_old : (wiredGraph g d).constructionDeps i = base.constructionDeps i := by
  simp only [Graph.constructionDeps, h.edges_old hi, h.aliasTarget_old hi]
  congr 1
  exact flatMap_congr fun e he => h.edgeDeps_old hi he

end

/-- The reads of a closure of the base lead to what they led to. -/
theorem readDeps_old (hm : m < base.modules.length) {read : Read}
    (hread : ∀ key, read.kind = .collection key → readsCollection base key = true) :
    (wiredGraph g d).readDeps m read = base.readDeps m read := by
  unfold Graph.readDeps
  split
  · rw [h.lookup_old hm]
  · rename_i key hkind
    exact h.collection_old (.inr (hread key hkind))
  · rfl
  · rfl
  · rfl

theorem closureDeps_old (hm : m < base.modules.length) {deps : Dependencies}
    (hreads : ∀ read ∈ deps.reads, ∀ key, read.kind = .collection key →
      readsCollection base key = true) :
    (wiredGraph g d).closureDeps m deps = base.closureDeps m deps :=
  flatMap_congr fun read hread => h.readDeps_old hm (hreads read hread)

section

variable (hi : i < base.bindings.length)
include hi

theorem readinessDeps_old : (wiredGraph g d).readinessDeps i = base.readinessDeps i := by
  unfold Graph.readinessDeps
  rw [h.record_old hi, h.origin_old hi]
  split
  · rename_i hready
    rw [h.closureDeps_old (h.origin_lt hi) fun read hread =>
      readsCollection_ready (binding_mem hi) hready hread]
  · rfl

theorem waitsFor_old : waitsFor (wiredGraph g d) i = waitsFor base i := by
  rw [waitsFor, h.constructionDeps_old hi, h.readinessDeps_old hi, waitsFor]

/-! ## Roles -/

theorem base_nonempty : base.modules ≠ [] := by
  intro hnil
  have hlt := h.origin_lt hi
  rw [hnil] at hlt
  exact Nat.not_lt_zero _ hlt

end

/-- The role types of the bindings the load found are those of the base. -/
theorem roleTypes_old (hne : base.modules ≠ []) :
    roleTypes g (unmarked.take base.bindings.length) = roleTypes base base.bindings := by
  have htake : unmarked.take base.bindings.length = base.bindings :=
    (prefix_iff_eq_take.mp h.frozen.bindings).symm
  rw [roleTypes, htake, h.handlers hne, roleTypes]

/-- **Marking changes no role of the base**: a type that became a role type with
this load has unqualified contributions alone, and the base has none of those. -/
theorem markRole_old (hi : i < base.bindings.length) :
    markRole (roleTypes g unmarked) (base.binding i) = base.binding i := by
  have hne := h.base_nonempty hi
  unfold markRole
  split
  swap
  · rfl
  rename_i hmark
  obtain ⟨hkind, hrole, hty⟩ := hmark
  exfalso
  have hold : (base.binding i).record.primary.ty ∉ roleTypes base base.bindings :=
    h.wired.roles.contributions _ (binding_mem hi) hkind hrole
  have hunq := (h.roles _ (mem_of_getElem? (h.getElem?_unmarked hi))).collection hkind hty
    (.inr (h.roleTypes_old hne ▸ hold))
  -- the type is that of a contribution the load brings
  simp only [roleTypes, mem_append, mem_map, mem_filter, decide_eq_true_eq,
    h.handlers hne] at hty hold
  obtain ⟨b, ⟨hb, hbkind, hbrole⟩, hbty⟩ := hty.resolve_left fun hc => hold (.inl hc)
  obtain ⟨j, hj⟩ := mem_iff_getElem?.mp hb
  have hge : base.bindings.length ≤ j := by
    by_contra hlt
    rw [not_le] at hlt
    rw [h.getElem?_unmarked hlt] at hj
    cases hj
    exact hold (.inr ⟨_, ⟨binding_mem hlt, hbkind, hbrole⟩, hbty⟩)
  have hmem : g.bindings[j]? = some (markRole (roleTypes g unmarked) b) := by
    rw [h.frozen.marked, getElem?_map, hj]
    rfl
  have hbid : b.id = j := by
    have hid := h.frozen.laid.ids j _ hmem
    rwa [show (markRole (roleTypes g unmarked) b).id = b.id from
      congrArg Prod.fst (markRole_shape _ b)] at hid
  have hbrecord : (markRole (roleTypes g unmarked) b).record = b.record :=
    congrArg (·.2.2) (markRole_shape _ b)
  have hbty' : (recordKey b.record).ty ∈ roleTypes g unmarked := by
    simp only [roleTypes, mem_append, mem_map, mem_filter, decide_eq_true_eq]
    exact .inr ⟨b, ⟨hb, hbkind, hbrole⟩, rfl⟩
  have hbunq := (h.roles b hb).collection hbkind hbty' (.inl (hbid ▸ hge))
  -- so both contribute to one key, which the base holds
  have hkey : recordKey b.record = recordKey (base.binding i).record := by
    simp only [Key.isUnqualified, beq_iff_eq] at hunq hbunq
    have hty' : (recordKey b.record).ty = (recordKey (base.binding i).record).ty := hbty
    cases hk : recordKey b.record
    cases hk' : recordKey (base.binding i).record
    simp_all
  have hheld : recordKey (base.binding i).record ∈ base.collections := by
    rw [← AList.lookup_isSome, h.wired.collected]
    have hin : i ∈ contributionsTo (recordKey (base.binding i).record) base.bindings :=
      mem_contributionsTo.mpr ⟨_, binding_mem hi, h.wired.laid.ids i _ (getElem?_binding hi),
        hkind, rfl⟩
    unfold present
    split
    · rename_i hnil
      rw [hnil] at hin
      cases hin
    · rfl
  have hnone := h.collections _ (.inl hheld)
  have hnew : j ∈ contributionsTo (recordKey (base.binding i).record)
      (g.bindings.drop base.bindings.length) := by
    refine mem_contributionsTo.mpr ⟨_, ?_, h.frozen.laid.ids j _ hmem, hbrecord ▸ hbkind,
      hbrecord ▸ hkey⟩
    refine mem_iff_getElem?.mpr ⟨j - base.bindings.length, ?_⟩
    rw [getElem?_drop, Nat.add_sub_cancel' hge, hmem]
  rw [hnone] at hnew
  cases hnew

theorem throughAliases_old (k : ℕ) (hi : i < base.bindings.length) :
    throughAliases (wiredGraph g d) k i = throughAliases base k i := by
  induction k generalizing i with
  | zero => rfl
  | succ k ih =>
    simp only [throughAliases, h.aliasTarget_old hi]
    cases ht : base.aliasTarget i with
    | none => rfl
    | some t => exact ih (h.wired.readsInBounds i hi t (aliasTarget_mem_waitsFor ht))

/-- The handlers name the enhancers they named. -/
theorem namedEnhancers_old (hne : base.modules ≠ []) :
    namedEnhancers (wiredGraph g d) = namedEnhancers base := by
  have hhandlers : (wiredGraph g d).handlers = base.handlers :=
    (wiredGraph_sameShape g d).handlers.trans (h.handlers hne)
  unfold namedEnhancers
  rw [hhandlers]
  refine flatMap_congr fun handler hhandler => ?_
  obtain ⟨b, hb, horigin, -⟩ := h.wired.laid.handlers handler hhandler
  have hm : handler.module < base.modules.length :=
    horigin ▸ h.wired.laid.origins b (mem_of_getElem? hb)
  refine filterMap_congr fun dep _ => ?_
  cases dep with
  | closure => rfl
  | type =>
    simp only [h.lookup_old hm]
    split
    · rename_i hl
      have hid := (h.wired.tabled.binding _ _ _ hl).1
      obtain ⟨k, hk⟩ := Nat.exists_eq_add_of_le h.bindings_le
      have hend := throughAliases_ends h.wired.readsInBounds h.wired.acyclic hid
      rw [h.throughAliases_old _ hid, (wiredGraph_sameShape g d).length, hk, throughAliases_add,
        throughAliases_of_none hend]
    · rfl

section

variable (hi : i < base.bindings.length)
include hi

/-- **No role of the base changes.** -/
theorem role_old : ((wiredGraph g d).binding i).role = (base.binding i).role := by
  rw [wiredGraph_role (hi.trans_le h.bindings_le), h.binding_frozen hi, h.markRole_old hi, if_neg]
  rintro ⟨hnamed, hprovider⟩
  rw [h.namedEnhancers_old (h.base_nonempty hi)] at hnamed
  exact h.wired.roles.named i hnamed hprovider

/-! ## Scopes -/

theorem lt_wired : i < (wiredGraph g d).bindings.length := by
  rw [(wiredGraph_sameShape g d).length]
  exact hi.trans_le h.bindings_le

/-- **A base binding needs an execution if it did.** -/
theorem needs_old : Needs (wiredGraph g d) i ↔ Needs base i := by
  have hown : ∀ {i : ℕ}, i < base.bindings.length →
      ((wiredGraph g d).binding i).ownNeed = (base.binding i).ownNeed := fun hi => by
    simp only [FrozenBinding.ownNeed, h.record_old hi, h.edges_old hi]
  have hhands : ∀ {i : ℕ}, i < base.bindings.length →
      ((wiredGraph g d).binding i).handsOn = (base.binding i).handsOn := fun hi => by
    simp only [FrozenBinding.handsOn, FrozenBinding.effectiveOf, h.record_old hi, h.role_old hi]
  constructor
  · -- what a base binding reads is in the base, so the need never comes from outside
    intro hn
    induction hn with
    | own _ hneed => exact .own hi (hown hi ▸ hneed)
    | @through id dep _ hdep _ hands ih =>
      have hdep' : dep ∈ base.constructionDeps id := h.constructionDeps_old hi ▸ hdep
      have hlt := constructionDeps_lt h.wired.readsInBounds hi dep hdep'
      exact .through hi hdep' (ih hlt) (hhands hlt ▸ hands)
  · intro hn
    induction hn with
    | own hid hneed => exact .own (h.lt_wired hid) (hown hid ▸ hneed)
    | @through id dep hid hdep hn hands ih =>
      exact .through (h.lt_wired hid) (h.constructionDeps_old hid ▸ hdep) (ih hn.lt)
        (hhands hn.lt ▸ hands)

/-- **A base binding comes out as it went in.** -/
theorem binding_old : (wiredGraph g d).binding i = base.binding i := by
  have hdecided := wiredGraph_decided g d
  have hrole := h.role_old hi
  have hrecord := h.record_old hi
  have hneeds : ((wiredGraph g d).binding i).needsExecution =
      (base.binding i).needsExecution :=
    Bool.eq_iff_iff.mpr (((hdecided.needs i (h.lt_wired hi)).trans (h.needs_old hi)).trans
      (h.wired.decided.needs i hi).symm)
  have heffective : ((wiredGraph g d).binding i).effective = (base.binding i).effective := by
    rw [hdecided.effective i (h.lt_wired hi), h.wired.decided.effective i hi, hneeds]
    simp only [FrozenBinding.effectiveOf, hrecord, hrole]
  have hid : ((wiredGraph g d).binding i).id = (base.binding i).id :=
    congrArg Prod.fst (h.shape_old hi)
  have horigin := h.origin_old hi
  have hedges := h.edges_old hi
  cases hs : (wiredGraph g d).binding i
  cases hb : base.binding i
  simp_all

end

end Extending

end Ulo
