import Ulo.Graph.Frozen
import Ulo.Graph.Wire

/-!
# What the passes change

After the tables and the edges are written, the passes of `check` touch roles,
scopes and the scopes of closures alone. Whatever a read leads to –
`lookup`, `collection`, `constructionDeps`, `readinessDeps` – is the same before
and after them (`Graph.SameReads`), and `needsExecution` decides the least
solution of the rule by which the need for an execution spreads (`Needs`).
-/

namespace Ulo

open List

/-! ## Graphs whose reads lead to the same -/

variable {g : Graph} {i id : BindingId} {b : FrozenBinding}

theorem binding_of_getElem? {i : ℕ} (h : g.bindings[i]? = some b) : g.binding i = b := by
  simp [Graph.binding, h]

theorem getElem?_binding (h : i < g.bindings.length) : g.bindings[i]? = some (g.binding i) := by
  simp [Graph.binding, h]

theorem binding_mem (h : i < g.bindings.length) :
    g.binding i ∈ g.bindings := mem_of_getElem? (getElem?_binding h)

theorem Graph.Laid.binding_id (hg : g.Laid) (hb : b ∈ g.bindings) :
    b.id < g.bindings.length ∧ g.binding b.id = b := by
  obtain ⟨i, hi⟩ := mem_iff_getElem?.mp hb
  rw [hg.ids i b hi]
  exact ⟨(List.getElem?_eq_some_iff.mp hi).1, binding_of_getElem? hi⟩

/-- **Two graphs whose declared reads lead to the same bindings.** -/
structure Graph.SameReads (g g' : Graph) : Prop extends g.SameShape g' where
  visibility : g'.visibility = g.visibility
  collections : g'.collections = g.collections
  inputs : g'.inputs = g.inputs
  edges : ∀ i, (g'.binding i).edges = (g.binding i).edges

namespace Graph.SameReads

variable {g g' : Graph} (h : g.SameReads g')
include h

theorem lookup (m : ModuleId) (key : Key) : g'.lookup m key = g.lookup m key := by
  rw [Graph.lookup, h.visibility, Graph.lookup]

theorem collection (key : Key) : g'.collection key = g.collection key := by
  rw [Graph.collection, h.collections, Graph.collection]

theorem aliasTarget (id : BindingId) : g'.aliasTarget id = g.aliasTarget id := by
  simp only [Graph.aliasTarget, h.record, h.origin, h.lookup]

theorem edgeDeps : g'.edgeDeps = g.edgeDeps := by
  funext e
  simp only [Graph.edgeDeps, h.collection]

theorem constructionDeps (id : BindingId) : g'.constructionDeps id = g.constructionDeps id := by
  simp only [Graph.constructionDeps, h.edges, h.edgeDeps, h.aliasTarget]

theorem readDeps (m : ModuleId) : g'.readDeps m = g.readDeps m := by
  funext r
  simp only [Graph.readDeps, h.lookup, h.collection]

theorem closureDeps (m : ModuleId) (d : Dependencies) :
    g'.closureDeps m d = g.closureDeps m d := by
  simp only [Graph.closureDeps, h.readDeps]

theorem readinessDeps (id : BindingId) : g'.readinessDeps id = g.readinessDeps id := by
  simp only [Graph.readinessDeps, h.record, h.origin, h.closureDeps]

theorem waitsFor (id : BindingId) : Ulo.waitsFor g' id = Ulo.waitsFor g id := by
  simp only [Ulo.waitsFor, h.constructionDeps, h.readinessDeps]

theorem acyclic (hg : Acyclic g) : Acyclic g' := by
  obtain ⟨rank, hrank⟩ := hg
  refine ⟨rank, fun id hid dep hdep hlt => ?_⟩
  exact hrank id (h.length ▸ hid) dep (h.waitsFor id ▸ hdep) (h.length ▸ hlt)

theorem trans {g'' : Graph} (h' : g'.SameReads g'') : g.SameReads g'' where
  toSameShape := h.toSameShape.trans h'.toSameShape
  visibility := h'.visibility.trans h.visibility
  collections := h'.collections.trans h.collections
  inputs := h'.inputs.trans h.inputs
  edges i := (h'.edges i).trans (h.edges i)

theorem symm : g'.SameReads g where
  toSameShape := h.toSameShape.symm
  visibility := h.visibility.symm
  collections := h.collections.symm
  inputs := h.inputs.symm
  edges i := (h.edges i).symm

end Graph.SameReads

section

variable (g) (f : ℕ → FrozenBinding → FrozenBinding)

/-- A graph whose bindings are rewritten one by one. -/
theorem binding_mapIdx (hi : i < g.bindings.length) :
    ({ g with bindings := g.bindings.mapIdx f } : Graph).binding i = f i (g.binding i) := by
  simp [Graph.binding, hi]

theorem binding_mapIdx_ge (hi : g.bindings.length ≤ i) :
    ({ g with bindings := g.bindings.mapIdx f } : Graph).binding i = g.binding i := by
  simp [Graph.binding, hi]

theorem sameShape_mapIdx (hf : ∀ i b, (f i b).shape = b.shape) :
    g.SameShape { g with bindings := g.bindings.mapIdx f } := by
  refine ⟨rfl, rfl, ext_getElem? fun i => ?_⟩
  simp only [getElem?_map, getElem?_mapIdx, Option.map_map, Function.comp_def, hf]

theorem sameReads_mapIdx (hf : ∀ i b, (f i b).shape = b.shape)
    (hedges : ∀ i b, (f i b).edges = b.edges) :
    g.SameReads { g with bindings := g.bindings.mapIdx f } where
  toSameShape := sameShape_mapIdx g f hf
  visibility := rfl
  collections := rfl
  inputs := rfl
  edges i := by
    rcases Nat.lt_or_ge i g.bindings.length with hlt | hge
    · rw [binding_mapIdx g f hlt, hedges]
    · rw [binding_mapIdx_ge g f hge]

theorem assignRoles_sameReads : g.SameReads (assignRoles g) :=
  sameReads_mapIdx g _ (fun i b => by split <;> rfl) (fun i b => by split <;> rfl)

theorem needsExecution_sameReads : g.SameReads (needsExecution g) :=
  sameReads_mapIdx g _ (fun _ _ => rfl) fun _ _ => rfl

theorem closureScopes_sameReads (d : Declared) : g.SameReads (closureScopes g d).1 :=
  ⟨⟨rfl, rfl, rfl⟩, rfl, rfl, rfl, fun _ => rfl⟩

end

/-- The graph that wiring answers: the settled one with its connect order. -/
def wiredGraph (g : Graph) (d : Declared) : Graph :=
  { settledGraph g d with connectOrder := connectOrder (settledGraph g d) }

section

variable (g) (d : Declared)

theorem decidedGraph_sameReads : (resolvedGraph g d).SameReads (decidedGraph g d) :=
  (assignRoles_sameReads _).trans (needsExecution_sameReads _)

theorem settledGraph_sameReads : (resolvedGraph g d).SameReads (settledGraph g d) :=
  (decidedGraph_sameReads g d).trans (closureScopes_sameReads (decidedGraph g d) d)

/-- **The passes after resolution lead every read to the same.** -/
theorem wiredGraph_sameReads : (resolvedGraph g d).SameReads (wiredGraph g d) :=
  (settledGraph_sameReads g d).trans ⟨⟨rfl, rfl, rfl⟩, rfl, rfl, rfl, fun _ => rfl⟩

theorem resolvedGraph_sameShape : g.SameShape (resolvedGraph g d) :=
  (⟨rfl, rfl, rfl⟩ : g.SameShape (buildTables g d)).trans
    (sameShape_mapIdx (buildTables g d) _ fun i b => by split <;> rfl)

theorem wiredGraph_sameShape : g.SameShape (wiredGraph g d) :=
  (resolvedGraph_sameShape g d).trans (wiredGraph_sameReads g d).toSameShape

theorem wiredGraph_lookup (m : ModuleId) (key : Key) :
    (wiredGraph g d).lookup m key = (buildTables g d).lookup m key :=
  (wiredGraph_sameReads g d).lookup m key

theorem wiredGraph_collection (key : Key) :
    (wiredGraph g d).collection key = g.collection key :=
  (wiredGraph_sameReads g d).collection key

theorem wiredGraph_binding (i : BindingId) :
    (wiredGraph g d).binding i = (decidedGraph g d).binding i := rfl

end

/-! ## The need for an execution -/

/-- **A binding needs an execution**: by its own scope or edges, or because
something it reads needs one and hands the need on. -/
inductive Needs (g : Graph) : BindingId → Prop
  | own {id : BindingId} (hid : id < g.bindings.length)
      (h : (g.binding id).ownNeed = true) : Needs g id
  | through {id dep : BindingId} (hid : id < g.bindings.length)
      (hdep : dep ∈ g.constructionDeps id) (h : Needs g dep)
      (hands : (g.binding dep).handsOn = true) : Needs g id

theorem mem_readers {dep : BindingId} :
    id ∈ readers g dep ↔ id < g.bindings.length ∧ dep ∈ g.constructionDeps id := by
  simp only [readers, mem_flatMap, mem_range, mem_filterMap]
  constructor
  · rintro ⟨reader, hlt, d, hd, hsome⟩
    split at hsome
    · rename_i heq
      cases hsome
      exact ⟨hlt, heq ▸ hd⟩
    · cases hsome
  · rintro ⟨hlt, hdep⟩
    exact ⟨id, hlt, dep, hdep, by simp⟩

/-- **The queue of `needs_execution` finds the bindings that need one.** -/
theorem mem_needing : id ∈ needing g ↔ Needs g id := by
  unfold needing
  rw [Propagate.mem_run (fun a ha => (mem_filter.mp ha).1)
    fun _ _ b hb => mem_range.mpr (mem_readers.mp hb).1]
  constructor
  · intro h
    induction h with
    | root h =>
      obtain ⟨hrange, hown⟩ := mem_filter.mp h
      exact .own (mem_range.mp hrange) hown
    | follow _ hands hb ih =>
      obtain ⟨hlt, hdep⟩ := mem_readers.mp hb
      exact .through hlt hdep ih hands
  · intro h
    induction h with
    | own hid h => exact .root (mem_filter.mpr ⟨mem_range.mpr hid, h⟩)
    | through hid hdep _ hands ih => exact .follow ih hands (mem_readers.mpr ⟨hid, hdep⟩)

theorem Needs.lt (h : Needs g id) : id < g.bindings.length := by
  cases h with
  | own hid | through hid => exact hid

theorem Graph.SameReads.needs {g' : Graph} (h : g.SameReads g')
    (hrole : ∀ i < g.bindings.length, (g'.binding i).role = (g.binding i).role) (hn : Needs g id) :
    Needs g' id := by
  have hown : ∀ i, (g'.binding i).ownNeed = (g.binding i).ownNeed := fun i => by
    simp only [FrozenBinding.ownNeed, h.record, h.edges]
  have hhands : ∀ i < g.bindings.length, (g'.binding i).handsOn = (g.binding i).handsOn :=
    fun i hi => by simp only [FrozenBinding.handsOn, FrozenBinding.effectiveOf, h.record,
      hrole i hi]
  induction hn with
  | own hid hneed => exact .own (h.length ▸ hid) ((hown _).trans hneed)
  | through hid hdep hn hands ih =>
    exact .through (h.length ▸ hid) (h.constructionDeps _ ▸ hdep) ih
      ((hhands _ hn.lt).trans hands)

/-- The flag and the scope that `needs_execution` decides. -/
structure Graph.Decided (g : Graph) : Prop where
  needs : ∀ id < g.bindings.length, (g.binding id).needsExecution = true ↔ Needs g id
  effective : ∀ id < g.bindings.length,
    (g.binding id).effective = (g.binding id).effectiveOf (g.binding id).needsExecution

/-- `passes_execution` of a binding that has some flag. -/
def FrozenBinding.passesWith (b : FrozenBinding) (flag : Bool) : Bool :=
  match b.effectiveOf flag with
  | .perExecution => true
  | .transient => flag
  | .singleton => false

/-- It passes the need on if it has the flag and hands on, where the flag is set at which the
need arises. -/
theorem FrozenBinding.passesWith_eq {b : FrozenBinding} {flag : Bool}
    (hown : b.ownNeed = true → flag = true) : b.passesWith flag = (flag && b.handsOn) := by
  unfold passesWith handsOn effectiveOf
  cases hscope : b.record.scope with
  | singleton => simp
  | perExecution => simp [hown (by simp [ownNeed, hscope])]
  | transient => simp
  | auto => cases flag <;> by_cases hrole : b.role = .provider <;> simp [hrole]

/-- **What the queue of `needs_execution` asks** of a binding, with some flags set and among
them all of those at which the need arises. -/
theorem passesExecution_flagged {marked : List BindingId}
    (hown : ∀ id < g.bindings.length, (g.binding id).ownNeed = true → id ∈ marked)
    (hid : id < g.bindings.length) :
    (g.flagged marked).passesExecution id = (decide (id ∈ marked) && (g.binding id).handsOn) := by
  simp only [Graph.passesExecution, Graph.flagged, binding_mapIdx g _ hid]
  exact FrozenBinding.passesWith_eq fun h => decide_eq_true (hown id hid h)

/-- A binding passes the need for an execution on if it has it and hands it on. -/
theorem Graph.Decided.passes_iff (h : g.Decided) (hid : id < g.bindings.length) :
    g.passesExecution id = true ↔ Needs g id ∧ (g.binding id).handsOn = true := by
  rw [← h.needs id hid, Graph.passesExecution, h.effective id hid, ← Bool.and_eq_true,
    ← FrozenBinding.passesWith_eq fun hown => (h.needs id hid).mpr (.own hid hown)]
  rfl

theorem passesExecution_lt (h : g.passesExecution id = true) : id < g.bindings.length := by
  by_contra hge
  simp [Graph.passesExecution, Graph.binding, Nat.not_lt.mp hge] at h

theorem needsExecution_role (g : Graph) (i : BindingId) (hi : i < g.bindings.length) :
    ((needsExecution g).binding i).role = (g.binding i).role := by
  simp only [needsExecution, Graph.flagged, binding_mapIdx g _ hi]

/-- **`needs_execution` decides the need and the scope of every binding.** -/
theorem needsExecution_decided (g : Graph) : (needsExecution g).Decided := by
  have hsame := needsExecution_sameReads g
  have hiff : ∀ id, Needs (needsExecution g) id ↔ Needs g id := fun id =>
    ⟨hsame.symm.needs fun i hi => (needsExecution_role g i (hsame.length ▸ hi)).symm,
      hsame.needs (needsExecution_role g)⟩
  refine ⟨fun id hid => ?_, fun id hid => ?_⟩
  · have hlt : id < g.bindings.length := hsame.length ▸ hid
    rw [hiff, ← mem_needing]
    simp only [needsExecution, Graph.flagged, binding_mapIdx g _ hlt, decide_eq_true_eq]
  · have hlt : id < g.bindings.length := hsame.length ▸ hid
    simp only [needsExecution, Graph.flagged, binding_mapIdx g _ hlt]
    rfl

theorem wiredGraph_decided (g : Graph) (d : Declared) : (wiredGraph g d).Decided := by
  have hdecided := needsExecution_decided (assignRoles (resolvedGraph g d))
  have hsame : (decidedGraph g d).SameReads (wiredGraph g d) :=
    (closureScopes_sameReads (decidedGraph g d) d).trans
      ⟨⟨rfl, rfl, rfl⟩, rfl, rfl, rfl, fun _ => rfl⟩
  refine ⟨fun id hid => ?_, hdecided.effective⟩
  refine (hdecided.needs id hid).trans ⟨hsame.needs fun _ _ => rfl, ?_⟩
  exact hsame.symm.needs fun _ _ => rfl

/-! ## The least flags -/

/-- **What reaches execution data**: by its own scope or edges, or by a read of a binding built
per execution, or through a transient that reaches some. -/
inductive ReachesExecution (g : Graph) : BindingId → Prop
  | own {id : BindingId} (h : (g.binding id).ownNeed = true) : ReachesExecution g id
  | execution {id dep : BindingId} (hdep : dep ∈ g.constructionDeps id)
      (h : (g.binding dep).effective = .perExecution) : ReachesExecution g id
  | through {id dep : BindingId} (hdep : dep ∈ g.constructionDeps id)
      (heff : (g.binding dep).effective = .transient) (h : ReachesExecution g dep) :
      ReachesExecution g id

theorem ReachesExecution.needs (hg : g.Decided) (hb : ReadsInBounds g)
    (h : ReachesExecution g id) (hid : id < g.bindings.length) : Needs g id := by
  have hthrough : ∀ {id dep : BindingId}, id < g.bindings.length → dep ∈ g.constructionDeps id →
      g.passesExecution dep = true → Needs g id := fun hid hdep hpasses =>
    have hneeds := (hg.passes_iff (passesExecution_lt hpasses)).mp hpasses
    .through hid hdep hneeds.1 hneeds.2
  induction h with
  | own h => exact .own hid h
  | execution hdep heff => exact hthrough hid hdep (by rw [Graph.passesExecution, heff])
  | through hdep heff _ ih =>
    have hlt := constructionDeps_lt hb hid _ hdep
    refine hthrough hid hdep ?_
    rw [Graph.passesExecution, heff]
    exact (hg.needs _ hlt).mpr (ih hlt)

/-- **The least flags** that hold where the need arises and where a read passes it on, and the
scopes that come with them. -/
structure Graph.LeastNeeds (g : Graph) : Prop where
  fixpoint : ∀ id < g.bindings.length, (g.binding id).needsExecution = true ↔
    (g.binding id).ownNeed = true ∨ ∃ dep ∈ g.constructionDeps id, g.passesExecution dep = true
  least : ∀ flags : BindingId → Bool,
    (∀ id < g.bindings.length, ((g.binding id).ownNeed = true ∨ ∃ dep ∈ g.constructionDeps id,
      (g.binding dep).passesWith (flags dep) = true) → flags id = true) →
    ∀ id < g.bindings.length, (g.binding id).needsExecution = true → flags id = true
  effective : ∀ id < g.bindings.length, (g.binding id).effective = .perExecution ↔
    (g.binding id).record.scope = .perExecution ∨ (g.binding id).record.scope = .auto ∧
      (g.binding id).role ≠ .provider ∧ (g.binding id).needsExecution = true

theorem Graph.Decided.leastNeeds (h : g.Decided) : g.LeastNeeds where
  fixpoint id hid := by
    rw [h.needs id hid]
    constructor
    · intro hneeds
      cases hneeds with
      | own _ hown => exact .inl hown
      | through _ hdep hneeds hands =>
        exact .inr ⟨_, hdep, (h.passes_iff hneeds.lt).mpr ⟨hneeds, hands⟩⟩
    · rintro (hown | ⟨dep, hdep, hpasses⟩)
      · exact .own hid hown
      · obtain ⟨hneeds, hands⟩ := (h.passes_iff (passesExecution_lt hpasses)).mp hpasses
        exact .through hid hdep hneeds hands
  least flags hflags id hid hneeds := by
    rw [h.needs id hid] at hneeds
    induction hneeds with
    | own hid hown => exact hflags _ hid (.inl hown)
    | @through id dep hid hdep hneeds hands ih =>
      refine hflags id hid (.inr ⟨dep, hdep, ?_⟩)
      rw [ih hneeds.lt, FrozenBinding.passesWith_eq fun _ => rfl]
      exact hands
  effective id hid := by
    rw [h.effective id hid, FrozenBinding.effectiveOf]
    cases (g.binding id).record.scope <;> simp [and_comm]

end Ulo
