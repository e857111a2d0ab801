import Ulo.Graph.Tables

/-!
# Wired graphs

`Graph.Wired` is what wiring guarantees of the graph it answers, and what a
lazy load may rely on in the graph it extends: ids are positions, tables lead
to single bindings and declared inputs, every declared read resolves, nothing
waits for itself, roles and scopes are those the passes would decide again, and
nothing built outside of an execution needs one.
-/

namespace Ulo

open List

/-- **Every declared read of a binding or a hook resolves.** -/
structure Graph.Resolved (g : Graph) : Prop where
  bindings : ∀ id < g.bindings.length,
    AllResolve g (g.binding id).origin (g.binding id).record.dependencies
  closures : ∀ b ∈ g.bindings, ClosuresResolve g b
  hooks : ∀ m ∈ g.modules, ∀ hook ∈ m.hooks, AllResolve g m.id hook.dependencies

/-- **Roles that another pass would not change**: no contribution to a role
type is a mere provider, nor is a binding that a handler names as an enhancer. -/
structure Graph.RolesSettled (g : Graph) : Prop where
  contributions : ∀ b ∈ g.bindings, b.record.kind = .collection → b.role = .provider →
    b.record.primary.ty ∉ roleTypes g g.bindings
  named : ∀ id ∈ namedEnhancers g, (g.binding id).role ≠ .provider

/-- **A binding is scoped for what it needs**: one that needs an execution is
not built once, and one built per execution has no hooks and no readiness
check. -/
structure FrozenBinding.Scoped (b : FrozenBinding) : Prop where
  needs : b.needsExecution = true → b.effective ≠ .singleton
  outside : b.effective = .perExecution → b.record.hooks = [] ∧ b.record.ready = none

/-- **A read that can be made outside of any execution**: it asks for no
execution data, and what it leads to passes no need for one on. A closure's own
binding is exempt. -/
def ReadOutside (g : Graph) (m : ModuleId) (owner : Option BindingId) (r : Read) : Prop :=
  match r.kind with
  | .extension _ | .execution => False
  | .single key =>
    match g.lookup m key with
    | some (.input _) => False
    | some (.binding id) => some id = owner ∨ g.passesExecution id = false
    | _ => True
  | .collection key =>
    ∀ id ∈ g.collection key, some id = owner ∨ g.passesExecution id = false
  | .module => True

variable {g g' : Graph} {id t : BindingId} {owner : Option BindingId} {m : ModuleId} {r : Read}

theorem readSteps_eq_none : readSteps g m owner r = none ↔ ReadOutside g m owner r := by
  unfold readSteps ReadOutside
  cases r.kind with
  | single key =>
    dsimp only
    cases g.lookup m key with
    | none => simp
    | some v =>
      cases v with
      | binding id => by_cases hown : some id = owner <;> simp [hown]
      | input | ambiguous => simp
  | collection =>
    simp only [Option.map_eq_none_iff, find?_eq_none]
    refine forall₂_congr fun id _ => ?_
    by_cases hown : some id = owner <;> simp [hown]
  | extension | execution | module => simp

/-- A closure whose reads can all be made outside of any execution. -/
def ReadsOutside (g : Graph) (m : ModuleId) (owner : Option BindingId) (d : Dependencies) :
    Prop :=
  ∀ r ∈ d.reads, ReadOutside g m owner r

theorem closureErrors_nil {name : Owner} {location : Option Location} {d : Dependencies}
    (h : closureErrors g m owner name location d = []) : ReadsOutside g m owner d := by
  intro r hr
  obtain ⟨dep, hdep, hmem⟩ := Dependencies.mem_reads.mp hr
  have hnone := filterMap_eq_nil_iff.mp h dep hdep
  rw [Option.map_eq_none_iff, executionRead, findSome?_eq_none_iff] at hnone
  exact readSteps_eq_none.mp (hnone r hmem)

/-- **Readiness checks and hooks read nothing that needs an execution.** -/
structure Graph.Outside (g : Graph) : Prop where
  ready : ∀ b ∈ g.bindings, ∀ ready, b.record.ready = some ready →
    ReadsOutside g b.origin (some b.id) ready.dependencies
  hooks : ∀ b ∈ g.bindings, ∀ hook ∈ b.record.hooks,
    ReadsOutside g b.origin (some b.id) hook.dependencies
  modules : ∀ m ∈ g.modules, ∀ hook ∈ m.hooks, ReadsOutside g m.id none hook.dependencies

/-- **A wired graph.** -/
structure Graph.Wired (g : Graph) : Prop where
  laid : g.Laid
  collected : ∀ key, g.collections.lookup key = present (contributionsTo key g.bindings)
  tabled : g.Tabled
  edges : ∀ id < g.bindings.length, (g.binding id).edges = bindingEdges g id
  resolved : g.Resolved
  aliases : ∀ id < g.bindings.length, ∀ target, (g.binding id).record.recipe = .alias target →
    ∃ t, g.lookup (g.binding id).origin target = some (.binding t)
  built : ∀ b ∈ g.bindings, b.record.recipe.isFailed = false
  acyclic : Acyclic g
  roles : g.RolesSettled
  decided : g.Decided
  scopes : ∀ b ∈ g.bindings, b.Scoped
  outside : g.Outside
  connectOrder : g.connectOrder = Ulo.connectOrder g

/-! ## Where reads lead -/

section Reads

variable {g : Graph} {id : BindingId} {key : Key}

theorem mem_contributionsTo {l : List FrozenBinding} :
    id ∈ contributionsTo key l ↔ ∃ b ∈ l, b.id = id ∧ b.record.kind = .collection ∧
      recordKey b.record = key := by
  simp only [contributionsTo, mem_map, mem_filter, contributesTo, decide_eq_true_eq]
  constructor
  · rintro ⟨b, ⟨hb, hkind, hkey⟩, hid⟩
    exact ⟨b, hb, hid, hkind, hkey⟩
  · rintro ⟨b, hb, hid, hkind, hkey⟩
    exact ⟨b, ⟨hb, hkind, hkey⟩, hid⟩

/-- A collection holds the contributions to its key. -/
theorem mem_collection (hg : g.Laid)
    (hcollected : ∀ key, g.collections.lookup key = present (contributionsTo key g.bindings)) :
    id ∈ g.collection key ↔ id < g.bindings.length ∧
      (g.binding id).record.kind = .collection ∧ recordKey (g.binding id).record = key := by
  rw [Graph.collection, hcollected, present_getD, mem_contributionsTo]
  constructor
  · rintro ⟨b, hb, rfl, hrest⟩
    obtain ⟨hlt, heq⟩ := hg.binding_id hb
    rw [heq]
    exact ⟨hlt, hrest⟩
  · rintro ⟨hlt, hrest⟩
    exact ⟨g.binding id, binding_mem hlt, hg.ids id _ (getElem?_binding hlt), hrest⟩

theorem aliasTarget_eq_some (h : g.aliasTarget id = some t) :
    ∃ target, (g.binding id).record.recipe = .alias target ∧
      g.lookup (g.binding id).origin target = some (.binding t) := by
  unfold Graph.aliasTarget at h
  split at h
  · rename_i target hrecipe
    split at h
    · rename_i hl
      cases h
      exact ⟨target, hrecipe, hl⟩
    · cases h
  · cases h

theorem mem_bindingEdges {e : Edge} (h : e ∈ bindingEdges g id) :
    ∃ r ∈ (g.binding id).record.dependencies.reads,
      readTarget g (g.binding id).origin r = some e.target := by
  obtain ⟨⟨r, i⟩, hmem, hsome⟩ := mem_filterMap.mp h
  obtain ⟨target, htarget, rfl⟩ := Option.map_eq_some_iff.mp hsome
  exact ⟨r, Dependencies.mem_points.mpr ⟨i, hmem⟩, htarget⟩

/-- The edge of a declared read. -/
theorem edge_of_read {target : EdgeTarget} (hr : r ∈ (g.binding id).record.dependencies.reads)
    (ht : readTarget g (g.binding id).origin r = some target) :
    ∃ e ∈ bindingEdges g id, e.target = target := by
  obtain ⟨i, hi⟩ := Dependencies.mem_points.mp hr
  exact ⟨⟨target, i, r.optional⟩, mem_filterMap.mpr ⟨(r, i), hi, by simp [ht]⟩, rfl⟩

variable (hlaid : g.Laid)
  (hcollected : ∀ key, g.collections.lookup key = present (contributionsTo key g.bindings))
  (htabled : g.Tabled)
include hlaid hcollected htabled

theorem readDeps_lt {dep : BindingId} (h : dep ∈ g.readDeps m r) : dep < g.bindings.length := by
  unfold Graph.readDeps at h
  split at h
  · split at h
    · rename_i hl
      rw [mem_singleton.mp h]
      exact (htabled.binding _ _ _ hl).1
    · cases h
  · exact ((mem_collection hlaid hcollected).mp h).1
  · cases h
  · cases h
  · cases h

/-- **Reads lead to bindings of the graph.** -/
theorem readsInBounds
    (hedges : ∀ id < g.bindings.length, (g.binding id).edges = bindingEdges g id) :
    ReadsInBounds g := by
  intro id hid dep hdep
  rcases mem_append.mp hdep with hdep | hdep
  · rcases mem_append.mp hdep with hdep | hdep
    · obtain ⟨e, he, hmem⟩ := mem_flatMap.mp hdep
      unfold Graph.edgeDeps at hmem
      split at hmem
      · rename_i htarget
        obtain rfl := mem_singleton.mp hmem
        obtain ⟨r, -, hr⟩ := mem_bindingEdges (hedges id hid ▸ he)
        unfold readTarget keyTarget at hr
        split at hr
        · split at hr
          · rename_i hl
            rw [htarget] at hr
            cases hr
            exact (htabled.binding _ _ _ hl).1
          · rw [htarget] at hr
            cases hr
          · cases hr
          · cases hr
        all_goals
          rw [htarget] at hr
          cases hr
      · exact ((mem_collection hlaid hcollected).mp hmem).1
      · cases hmem
      · cases hmem
      · cases hmem
    · obtain ⟨target, -, hl⟩ := aliasTarget_eq_some (Option.mem_toList.mp hdep)
      exact (htabled.binding _ _ _ hl).1
  · unfold Graph.readinessDeps at hdep
    split at hdep
    · obtain ⟨r, -, hr⟩ := mem_flatMap.mp (mem_of_mem_filter hdep)
      exact readDeps_lt hlaid hcollected htabled hr
    · cases hdep

end Reads

theorem Graph.Wired.readsInBounds (h : g.Wired) : ReadsInBounds g :=
  Ulo.readsInBounds h.laid h.collected h.tabled h.edges

/-! ## Chains of aliases -/

theorem throughAliases_add (g : Graph) (j k : ℕ) (id : BindingId) :
    throughAliases g (j + k) id = throughAliases g k (throughAliases g j id) := by
  induction j generalizing id with
  | zero => rw [Nat.zero_add]; rfl
  | succ j ih =>
    rw [Nat.succ_add]
    cases ht : g.aliasTarget id with
    | some => simp only [throughAliases, ht, ih]
    | none =>
      -- the chain has ended, and stays where it is
      have hstay : ∀ k, throughAliases g k id = id := fun k => by
        cases k <;> simp [throughAliases, ht]
      simp only [hstay]

theorem throughAliases_of_none (h : g.aliasTarget id = none) (k : ℕ) :
    throughAliases g k id = id := by
  cases k <;> simp [throughAliases, h]

theorem throughAliases_succ {k : ℕ} (h : g.aliasTarget (throughAliases g k id) = some t) :
    throughAliases g (k + 1) id = t := by
  rw [throughAliases_add]
  simp [throughAliases, h]

theorem aliasTarget_mem_waitsFor (h : g.aliasTarget id = some t) : t ∈ waitsFor g id :=
  mem_append_left _ (mem_append_right _ (Option.mem_toList.mpr h))

theorem throughAliases_lt (hb : ReadsInBounds g) (k : ℕ) (hid : id < g.bindings.length) :
    throughAliases g k id < g.bindings.length := by
  induction k generalizing id with
  | zero => exact hid
  | succ k ih =>
    cases ht : g.aliasTarget id with
    | some t =>
      simp only [throughAliases, ht]
      exact ih (hb id hid t (aliasTarget_mem_waitsFor ht))
    | none => simpa [throughAliases, ht] using hid

/-- **A chain of aliases ends** within as many steps as there are bindings. -/
theorem throughAliases_ends (hb : ReadsInBounds g) (hacyclic : Acyclic g)
    (hid : id < g.bindings.length) :
    g.aliasTarget (throughAliases g g.bindings.length id) = none := by
  obtain ⟨rank, hrank⟩ := hacyclic
  by_contra hne
  have hlt : ∀ k, throughAliases g k id < g.bindings.length := fun k => throughAliases_lt hb k hid
  -- an end before that would be the end for good, so the rank falls all the way
  have hsome : ∀ k ≤ g.bindings.length, g.aliasTarget (throughAliases g k id) ≠ none := by
    intro k hk hnone
    obtain ⟨j, hj⟩ := Nat.exists_eq_add_of_le hk
    rw [hj, throughAliases_add, throughAliases_of_none hnone] at hne
    exact hne hnone
  have hfalls : ∀ k ≤ g.bindings.length,
      rank (throughAliases g (k + 1) id) < rank (throughAliases g k id) := by
    intro k hk
    obtain ⟨t, ht⟩ := Option.ne_none_iff_exists'.mp (hsome k hk)
    rw [throughAliases_succ ht]
    have hmem := aliasTarget_mem_waitsFor ht
    exact hrank _ (hlt k) t hmem (hb _ (hlt k) t hmem)
  have hmono : ∀ k ≤ g.bindings.length + 1, ∀ j < k,
      rank (throughAliases g k id) < rank (throughAliases g j id) := by
    intro k
    induction k with
    | zero => exact fun _ j hj => absurd hj (Nat.not_lt_zero j)
    | succ k ih =>
      intro hk j hj
      have hstep := hfalls k (by omega)
      rcases Nat.lt_or_eq_of_le (Nat.le_of_lt_succ hj) with hlt' | rfl
      · exact hstep.trans (ih (by omega) j hlt')
      · exact hstep
  have hnodup : ((range (g.bindings.length + 1)).map (throughAliases g · id)).Nodup := by
    refine List.Nodup.map_on (fun i hi j hj heq => ?_) nodup_range
    rw [mem_range] at hi hj
    rcases Nat.lt_trichotomy i j with hij | hij | hij
    · exact absurd (heq ▸ hmono j (by omega) i hij) (Nat.lt_irrefl _)
    · exact hij
    · exact absurd (heq ▸ hmono i (by omega) j hij) (Nat.lt_irrefl _)
  have hrange : map (fun k => throughAliases g k id) (range (g.bindings.length + 1)) ⊆
      range g.bindings.length := by
    intro i hi
    obtain ⟨k, -, rfl⟩ := mem_map.mp hi
    exact mem_range.mpr (hlt k)
  have hsub := (subperm_of_subset hnodup hrange).length_le
  simp at hsub

theorem Graph.SameReads.throughAliases (h : g.SameReads g') (k : ℕ) (id : BindingId) :
    throughAliases g' k id = throughAliases g k id := by
  induction k generalizing id with
  | zero => rfl
  | succ k ih => simp only [Ulo.throughAliases, h.aliasTarget, ih]

theorem Graph.SameReads.namedEnhancers (h : g.SameReads g') :
    namedEnhancers g' = namedEnhancers g := by
  simp only [Ulo.namedEnhancers, h.handlers, h.lookup, h.length, h.throughAliases]

/-- The role of a binding: that of the frozen graph, unless a handler names it. -/
theorem wiredGraph_role {d : Declared} {i : ℕ} (hi : i < g.bindings.length) :
    ((wiredGraph g d).binding i).role =
      if i ∈ namedEnhancers (wiredGraph g d) ∧ (g.binding i).role = .provider then .enhancer
      else (g.binding i).role := by
  have hlt : i < (resolvedGraph g d).bindings.length :=
    (resolvedGraph_sameShape g d).length ▸ hi
  have hresolved : ((resolvedGraph g d).binding i).role = (g.binding i).role := by
    change ((resolveEdges (buildTables g d) d.firstBinding).binding i).role = _
    unfold resolveEdges
    rw [binding_mapIdx (buildTables g d) _ hi]
    split <;> rfl
  rw [wiredGraph_binding, decidedGraph, needsExecution_role _ _ (by
    rwa [(assignRoles_sameReads (resolvedGraph g d)).length]),
    (wiredGraph_sameReads g d).namedEnhancers, ← hresolved]
  unfold assignRoles
  rw [binding_mapIdx _ _ hlt]
  split <;> rfl

end Ulo
