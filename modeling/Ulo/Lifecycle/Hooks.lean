import Mathlib.Data.List.TakeWhile
import Mathlib.Data.List.Destutter
import Ulo.Graph.Conservative
import Ulo.Lifecycle.Connect

/-!
# The order of hooks

At startup the hooks of a group – the whole application, or what one load
brought – run in the order of `hookPlan`, computed when the group is connected
from the graph of that moment and the group's own singletons and modules. At
shutdown the order is computed again, for all groups, from the last graph:
`shutdownPlan` finds a group by the load that its modules are marked with, and
its singletons by filtering the connect order of the whole.

The two agree because a load leaves the graph it extends as it is, with a connect
order that comes first (`wireLazy_conservative`), and because the modules of a
load are marked with a number greater than any before. So over any history of
loads the shutdown order is, group by group and the last one first, the reverse
of the startup order (`Graph.History.shutdownPlan_eq`).
-/

namespace Ulo

open List

/-! ## Plans -/

/-- The hooks of a kind as `run_startup_hooks` walks them. -/
def startupWalk (g : Graph) (kind : HookKind) (singletons : List BindingId)
    (modules : List ModuleId) : List (HookOwner × ℕ) :=
  (hookPlan g singletons modules).flatMap fun owner =>
    (hooksOfKind g kind owner).map fun h => (owner, h.2)

/-- The order of loads: the base graph's mark comes first. -/
def loadRank : Option ℕ → ℕ
  | none => 0
  | some n => n + 1

/-- `Vec::dedup`, on marks. -/
def dedupLoads (loads : List (Option ℕ)) : List (Option ℕ) := loads.destutter (· ≠ ·)

/-- The loads that brought the modules of a graph, in order. -/
def loadsOf (g : Graph) : List (Option ℕ) :=
  dedupLoads ((g.modules.map (·.loaded)).insertionSort fun a b => loadRank a ≤ loadRank b)

/-- The singletons that a load brought, in connect order. -/
def groupSingletons (g : Graph) (load : Option ℕ) : List BindingId :=
  g.connectOrder.filter fun id => (g.module (g.binding id).origin).loaded = load

/-- The modules that a load brought. -/
def groupModules (g : Graph) (load : Option ℕ) : List ModuleId :=
  (g.modules.filter (·.loaded = load)).map (·.id)

/-- **`shutdown_plan`.** -/
def shutdownPlan (g : Graph) (kind : HookKind) : List (HookOwner × ℕ) :=
  (loadsOf g).reverse.flatMap fun load =>
    (hookPlan g (groupSingletons g load) (groupModules g load)).reverse.flatMap fun owner =>
      ((hooksOf g owner).zipIdx.reverse.filter (·.1.kind = kind)).map fun h => (owner, h.2)

/-! ## What a plan holds -/

theorem mergePlan_perm (i : ℕ) (singletons : List BindingId) (placed : List (ℕ × ModuleId)) :
    (mergePlan i singletons placed).Perm
      (singletons.map .binding ++ placed.map fun p => .module p.2) := by
  induction singletons generalizing i placed with
  | nil => exact List.Perm.refl _
  | cons id singletons ih =>
    have hplaced : placed.map (fun p => HookOwner.module p.2) =
        (placed.takeWhile (·.1 ≤ i)).map (fun p => .module p.2) ++
          (placed.dropWhile (·.1 ≤ i)).map (fun p => .module p.2) := by
      rw [← map_append, takeWhile_append_dropWhile]
    rw [mergePlan, hplaced, map_cons, cons_append]
    refine perm_middle.trans (.cons _ (((ih _ _).append_left _).trans ?_))
    rw [← append_assoc, ← append_assoc]
    exact perm_append_comm.append_right _

theorem placeModules_snd (g : Graph) (singletons : List BindingId) (floor : ℕ)
    (modules : List ModuleId) : (placeModules g singletons floor modules).map (·.2) = modules := by
  induction modules generalizing floor with
  | nil => rfl
  | cons m modules ih => rw [placeModules, map_cons, ih]

/-- **A plan has every singleton and every module once.** -/
theorem hookPlan_perm (g : Graph) (singletons : List BindingId) (modules : List ModuleId) :
    (hookPlan g singletons modules).Perm (singletons.map .binding ++ modules.map .module) := by
  unfold hookPlan
  refine (mergePlan_perm _ _ _).trans (List.Perm.append_left _ ?_)
  refine ((perm_insertionSort _ _).map _).trans ?_
  rw [← placeModules_snd g singletons 0 modules, map_map, placeModules_snd]
  exact List.Perm.refl _

variable {g base : Graph} {singletons : List BindingId} {modules : List ModuleId} {cat : Catalog}
  {env : WireEnv} {plan : Option (TestPlan cat.size)} {m i : ModuleId} {loads : List (Option ℕ)}
  {owner : HookOwner} {id : BindingId} {load : Option ℕ} {root : Fin cat.size} {kind : HookKind}
  {out : LazyWiring} {position floor : ℕ}

theorem mem_hookPlan : owner ∈ hookPlan g singletons modules ↔
      (∃ id ∈ singletons, owner = .binding id) ∨ ∃ id ∈ modules, owner = .module id := by
  rw [(hookPlan_perm g singletons modules).mem_iff]
  simp [eq_comm]

theorem hookPlan_nodup (hsingletons : singletons.Nodup) (hmodules : modules.Nodup) :
    (hookPlan g singletons modules).Nodup := by
  rw [(hookPlan_perm g singletons modules).nodup_iff, nodup_append]
  refine ⟨hsingletons.map fun _ _ h => HookOwner.binding.inj h,
    hmodules.map fun _ _ h => HookOwner.module.inj h, ?_⟩
  simp

/-- A plan reads the graph for the origins of its singletons only. -/
theorem hookPlan_congr {g' : Graph}
    (h : ∀ id ∈ singletons, (g'.binding id).origin = (g.binding id).origin)
    (modules : List ModuleId) : hookPlan g' singletons modules = hookPlan g singletons modules := by
  have hlast : afterLast g' singletons = afterLast g singletons := by
    funext m
    refine foldl_ext _ _ _ fun found p hp => ?_
    rw [h p.1 (fst_mem_of_mem_zipIdx hp)]
  have hplace : ∀ floor, placeModules g' singletons floor modules =
      placeModules g singletons floor modules := by
    induction modules with
    | nil => exact fun _ => rfl
    | cons m modules ih =>
      intro floor
      simp only [placeModules, hlast, ih]
  unfold hookPlan
  rw [hplace]

/-! ### Where a plan places its modules -/

/-- What comes after what in a plan is told by its sublists. -/
theorem mergePlan_modules (i : ℕ) (singletons : List BindingId) (placed : List (ℕ × ModuleId)) :
    (placed.map fun p => HookOwner.module p.2).Sublist (mergePlan i singletons placed) := by
  induction singletons generalizing i placed with
  | nil => exact List.Sublist.refl _
  | cons id singletons ih =>
    rw [mergePlan]
    nth_rewrite 1 [← takeWhile_append_dropWhile (p := (·.1 ≤ i)) (l := placed)]
    rw [map_append]
    exact (List.Sublist.refl _).append ((ih _ _).cons _)

theorem mergePlan_singletons (i : ℕ) (singletons : List BindingId) (placed : List (ℕ × ModuleId)) :
    (singletons.map .binding).Sublist (mergePlan i singletons placed) := by
  induction singletons generalizing i placed with
  | nil => exact nil_sublist _
  | cons id singletons ih => exact ((ih _ _).cons_cons _).trans (sublist_append_right _ _)

/-- A module goes after the singletons before its position. -/
theorem mergePlan_after {i k : ℕ} {placed : List (ℕ × ModuleId)} (hm : (position, m) ∈ placed)
    (hid : singletons[k]? = some id) (hlt : i + k < position) :
    [.binding id, .module m].Sublist (mergePlan i singletons placed) := by
  induction singletons generalizing i k placed with
  | nil => cases hid
  | cons s singletons ih =>
    have hdrop : (position, m) ∈ placed.dropWhile (·.1 ≤ i) := by
      rw [← takeWhile_append_dropWhile (p := (·.1 ≤ i)) (l := placed)] at hm
      refine (mem_append.mp hm).resolve_left fun htake => ?_
      have hle := mem_takeWhile_imp htake
      exact Nat.not_le.mpr (Nat.lt_of_le_of_lt (Nat.le_add_right i k) hlt) (of_decide_eq_true hle)
    rw [mergePlan]
    refine List.Sublist.trans ?_ (sublist_append_right _ _)
    cases k with
    | zero =>
      cases hid
      refine List.Sublist.cons_cons _ (singleton_sublist.mpr ?_)
      exact (mergePlan_modules _ _ _).subset (mem_map.mpr ⟨_, hdrop, rfl⟩)
    | succ k => exact (ih hdrop hid (by omega)).cons _

/-- The position after the last singleton of a module is past each of them. -/
theorem afterLast_spec (g : Graph) (singletons : List BindingId) (m : ModuleId) :
    (∀ (k : ℕ) id, singletons[k]? = some id → (g.binding id).origin = m →
      ∃ position, afterLast g singletons m = some position ∧ k < position) ∧
    ((∀ id ∈ singletons, (g.binding id).origin ≠ m) → afterLast g singletons m = none) := by
  induction singletons using reverseRecOn with
  | nil => exact ⟨fun _ _ hid => (nomatch hid), fun _ => rfl⟩
  | append_singleton singletons s ih =>
    have hstep : afterLast g (singletons ++ [s]) m =
        if (g.binding s).origin = m then some (singletons.length + 1)
        else afterLast g singletons m := by
      simp [afterLast, zipIdx_append]
    rw [hstep]
    split
    · rename_i hs
      refine ⟨fun k id hid _ => ⟨_, rfl, ?_⟩, fun hnone => absurd hs (hnone s (by simp))⟩
      have := (List.getElem?_eq_some_iff.mp hid).1
      simpa using this
    · rename_i hs
      refine ⟨fun k id hid hm => ?_, fun hnone => ih.2 fun id hid => hnone id (by simp [hid])⟩
      rcases getElem?_concat_eq_some.mp hid with hold | ⟨-, rfl⟩
      · exact ih.1 k id hold hm
      · exact absurd hm hs

/-- A module is placed after its last singleton, or no earlier than the modules before it. -/
theorem mem_placeModules (hm : m ∈ modules) : ∃ floor' ≥ floor,
    ((afterLast g singletons m).getD floor', m) ∈ placeModules g singletons floor modules := by
  induction modules generalizing floor with
  | nil => cases hm
  | cons m₀ modules ih =>
    rcases mem_cons.mp hm with rfl | hm
    · exact ⟨floor, Nat.le_refl _, mem_cons_self⟩
    · obtain ⟨floor', hle, hmem⟩ := ih hm
      exact ⟨floor', le_of_max_le_left hle, mem_cons_of_mem _ hmem⟩

theorem placeModules_before {m' : ModuleId} (h : [m', m].Sublist modules)
    (hnone : afterLast g singletons m = none) : ∃ position' position, position' ≤ position ∧
      [(position', m'), (position, m)].Sublist (placeModules g singletons floor modules) := by
  induction modules generalizing floor with
  | nil => cases h
  | cons m₀ modules ih =>
    cases h with
    | cons _ h =>
      obtain ⟨position', position, hle, hsub⟩ := ih h
      exact ⟨position', position, hle, hsub.cons _⟩
    | cons_cons _ h =>
      obtain ⟨position, hle, hmem⟩ := mem_placeModules (singleton_sublist.mp h)
      rw [hnone] at hmem
      exact ⟨_, position, le_of_max_le_right hle, (singleton_sublist.mpr hmem).cons_cons _⟩

/-- **Where hooks run.** A plan has every singleton and every module once; the singletons
keep their order, a module comes after each of its singletons, and a module without any
comes after the modules before it. -/
theorem hookPlan_placed (hsingletons : singletons.Nodup) (hmodules : modules.Nodup) :
    (hookPlan g singletons modules).Perm (singletons.map .binding ++ modules.map .module) ∧
    (hookPlan g singletons modules).Nodup ∧
    (singletons.map .binding).Sublist (hookPlan g singletons modules) ∧
    (∀ m ∈ modules, ∀ id ∈ singletons, (g.binding id).origin = m →
      [.binding id, .module m].Sublist (hookPlan g singletons modules)) ∧
    ∀ m m', (∀ id ∈ singletons, (g.binding id).origin ≠ m) → [m', m].Sublist modules →
      [.module m', .module m].Sublist (hookPlan g singletons modules) := by
  refine ⟨hookPlan_perm _ _ _, hookPlan_nodup hsingletons hmodules, mergePlan_singletons _ _ _,
    fun m hm id hid horigin => ?_, fun m m' hnone hsub => ?_⟩
  · obtain ⟨k, hk⟩ := mem_iff_getElem?.mp hid
    obtain ⟨position, hafter, hlt⟩ := (afterLast_spec g singletons m).1 k id hk horigin
    obtain ⟨_, -, hmem⟩ := mem_placeModules hm
    rw [hafter] at hmem
    refine mergePlan_after ((mem_insertionSort _).mpr hmem) hk ?_
    rwa [Nat.zero_add]
  · obtain ⟨_, _, hle, hplaced⟩ := placeModules_before hsub
      ((afterLast_spec g singletons m).2 hnone)
    have hsorted := pair_sublist_insertionSort
      (r := fun a b : ℕ × ModuleId => a.1 ≤ b.1) hle hplaced
    exact (hsorted.map fun p => HookOwner.module p.2).trans (mergePlan_modules _ _ _)

/-- The hooks of the root follow its singleton, those of the feature its two. -/
theorem hookPlan_placed_sample :
    [HookOwner.binding 0, .module 0].Sublist (hookPlan (sampleApp 1) [0, 2, 1] [0, 1, 2]) ∧
      [HookOwner.binding 2, .module 1].Sublist (hookPlan (sampleApp 1) [0, 2, 1] [0, 1, 2]) ∧
      [HookOwner.module 1, .module 2].Sublist (hookPlan (sampleApp 1) [0, 2, 1] [0, 1, 2]) := by
  obtain ⟨-, -, -, hafter, hwithout⟩ :=
    @hookPlan_placed (sampleApp 1) [0, 2, 1] [0, 1, 2] (by decide) (by decide)
  exact ⟨hafter 0 (by decide) 0 (by decide) (by decide +kernel),
    hafter 1 (by decide) 2 (by decide) (by decide +kernel),
    hwithout 2 1 (by decide +kernel) (by decide)⟩

/-! ## Loads -/

theorem mem_destutter' {α : Type} [DecidableEq α] {l : List α} {a x : α} :
    x ∈ l.destutter' (· ≠ ·) a ↔ x = a ∨ x ∈ l := by
  induction l generalizing a with
  | nil => simp
  | cons b l ih =>
    by_cases hab : a = b
    · rw [destutter'_cons_neg _ (not_not_intro hab), ih, hab, mem_cons, ← or_assoc,
        or_self]
    · rw [destutter'_cons_pos _ hab, mem_cons, ih, mem_cons]

theorem mem_dedupLoads : load ∈ dedupLoads loads ↔ load ∈ loads := by
  unfold dedupLoads
  cases loads with
  | nil => rfl
  | cons => rw [destutter_cons', mem_destutter', mem_cons]

theorem mem_loadsOf : load ∈ loadsOf g ↔ ∃ m ∈ g.modules, m.loaded = load := by
  rw [loadsOf, mem_dedupLoads, mem_insertionSort, mem_map]

theorem loadRank_injective {a b : Option ℕ} (h : loadRank a = loadRank b) : a = b := by
  cases a <;> cases b <;> simp_all [loadRank]

/-- The order of loads is strict. -/
theorem loadsOf_sorted (g : Graph) : (loadsOf g).Pairwise fun a b => loadRank a < loadRank b := by
  have htotal : Std.Total fun a b : Option ℕ => loadRank a ≤ loadRank b :=
    ⟨fun a b => Nat.le_total _ _⟩
  have htrans : IsTrans (Option ℕ) fun a b => loadRank a ≤ loadRank b :=
    ⟨fun _ _ _ => Nat.le_trans⟩
  have hsorted := pairwise_insertionSort (fun a b : Option ℕ => loadRank a ≤ loadRank b)
    (g.modules.map (·.loaded))
  have hle := isChain_iff_getElem.mp
    (hsorted.sublist (destutter_sublist (· ≠ ·) _)).isChain
  have hne := isChain_iff_getElem.mp (isChain_destutter (· ≠ ·)
    ((g.modules.map (·.loaded)).insertionSort fun a b => loadRank a ≤ loadRank b))
  have hlt : IsTrans (Option ℕ) fun a b => loadRank a < loadRank b := ⟨fun _ _ _ => Nat.lt_trans⟩
  refine isChain_iff_pairwise.mp (isChain_iff_getElem.mpr fun i hi => ?_)
  exact lt_of_le_of_ne (hle i hi) fun heq => hne i hi (loadRank_injective heq)

/-- A list of loads in order is determined by its members. -/
theorem loadsOf_eq (hsorted : loads.Pairwise fun a b => loadRank a < loadRank b)
    (hmem : ∀ load, load ∈ loads ↔ ∃ m ∈ g.modules, m.loaded = load) : loadsOf g = loads := by
  have hirrefl : Std.Irrefl fun a b : Option ℕ => loadRank a < loadRank b :=
    ⟨fun _ => Nat.lt_irrefl _⟩
  have hasymm : Std.Antisymm fun a b : Option ℕ => loadRank a < loadRank b :=
    ⟨fun _ _ h h' => absurd h' (Nat.lt_asymm h)⟩
  exact (loadsOf_sorted g).eq_of_mem_iff hsorted fun load => mem_loadsOf.trans (hmem load).symm

theorem lt_nextLoad {m : FrozenModule} (hm : m ∈ base.modules) :
    loadRank m.loaded < loadRank (some (nextLoad base)) := by
  cases hloaded : m.loaded with
  | none => exact Nat.succ_pos _
  | some n =>
    have hmem : n ∈ base.modules.filterMap (·.loaded) := mem_filterMap.mpr ⟨m, hm, hloaded⟩
    unfold nextLoad
    cases hmax : (base.modules.filterMap (·.loaded)).max? with
    | none =>
      rw [max?_eq_none_iff] at hmax
      rw [hmax] at hmem
      cases hmem
    | some top =>
      have hle : n ≤ top := (max?_eq_some_iff.mp hmax).2 n hmem
      exact Nat.succ_lt_succ (Nat.lt_succ_of_le hle)

/-! ## One load -/

/-- The modules that are new in `g`, as `load` counts them. -/
def newModules (base g : Graph) : List ModuleId :=
  List.range' base.modules.length (g.modules.length - base.modules.length)

/-- **What a load of a new module does to a wired graph.** -/
structure LoadStep (base : Graph) (out : LazyWiring) : Prop where
  before : base.Wired
  wired : out.graph.Wired
  conservative : base.Extends out.graph
  order : out.graph.connectOrder = base.connectOrder ++ out.singletons
  fresh : ∀ id ∈ out.singletons, base.bindings.length ≤ id
  loaded : ∀ m ∈ out.graph.modules.drop base.modules.length, m.loaded = some (nextLoad base)

theorem wireLazy_step {m : Fin cat.size} {location : Location} (hbase : base.Wired)
    (hnew : base.byIdentity (cat.module m).identity = none)
    (h : wireLazy cat base m env location = .ok out) : LoadStep base out := by
  have hext := wireLazy_extending hbase hnew h
  obtain ⟨hconservative, horder⟩ := wireLazy_conservative hbase hnew h
  obtain ⟨-, hgraph, -, hsingletons, -, -⟩ := wireLazy_eq_ok hnew h
  refine ⟨hbase, wireLazy_wired hbase h, hconservative, horder, fun id hid => ?_, ?_⟩
  · rw [hsingletons, hext.frozen.firstBinding] at hid
    simpa using (mem_filter.mp hid).2
  · rw [hgraph, (wiredGraph_sameShape _ _).modules]
    exact hext.frozen.loaded

theorem Graph.Extends.binding (h : base.Extends g) (hid : id < base.bindings.length) :
    g.binding id = base.binding id := by
  unfold Graph.binding
  rw [getD_eq_getElem?_getD, getD_eq_getElem?_getD,
    (prefix_iff_getElem?.mp h.bindings) id hid, getElem?_eq_getElem hid]

theorem Graph.Extends.module (h : base.Extends g) {id : ModuleId} (hid : id < base.modules.length) :
    g.module id = base.module id := by
  unfold Graph.module
  rw [getD_eq_getElem?_getD, getD_eq_getElem?_getD,
    (prefix_iff_getElem?.mp h.modules) id hid, getElem?_eq_getElem hid]

theorem getElem?_module (h : i < g.modules.length) : g.modules[i]? = some (g.module i) := by
  rw [Graph.module, getD_eq_getElem?_getD, getElem?_eq_getElem h, Option.getD_some]

theorem mem_modules (h : i < g.modules.length) :
    g.module i ∈ g.modules := mem_of_getElem? (getElem?_module h)

theorem Graph.Wired.mem_connectOrder (hg : g.Wired) :
    id ∈ g.connectOrder ↔ id < g.bindings.length ∧ isSingleton g id = true := by
  rw [hg.connectOrder, (connectOrder_perm hg.readsInBounds).mem_iff, mem_singletonIds]

theorem Graph.Laid.module_lt (hg : g.Laid) {m : FrozenModule} (hm : m ∈ g.modules) :
    m.id < g.modules.length := by
  obtain ⟨i, hi, rfl⟩ := mem_iff_getElem.mp hm
  rw [hg.moduleIds i _ (getElem?_eq_getElem hi)]
  exact hi

namespace LoadStep

variable {base : Graph} {out : LazyWiring} (h : LoadStep base out) {id : BindingId}
  {load : Option ℕ}
include h

/-- The modules of the extended graph: the base's and the new ones. -/
theorem modules_eq : out.graph.modules =
    base.modules ++ out.graph.modules.drop base.modules.length := by
  obtain ⟨rest, hrest⟩ := h.conservative.modules
  rw [← hrest, drop_left]

theorem origin_old (hid : id < base.bindings.length) :
    (base.binding id).origin < base.modules.length :=
  h.before.laid.origins _ (binding_mem hid)

/-- What is new belongs to new modules. -/
theorem origin_new (hge : base.bindings.length ≤ id) (hid : id < out.graph.bindings.length) :
    base.modules.length ≤ (out.graph.binding id).origin := by
  by_contra hlt
  rw [Nat.not_le] at hlt
  -- the module would be one of the base, and its bindings are bindings of the base
  have hmodule := h.conservative.module hlt
  have hmem := mem_modules hlt
  have hid' := h.before.laid.moduleIds _ _ (getElem?_module hlt)
  have hwired : out.graph.module (out.graph.binding id).origin ∈ out.graph.modules :=
    mem_modules (hlt.trans_le h.conservative.modules.length_le)
  have hown := (h.wired.laid.own _ hwired id).mpr
    ⟨_, getElem?_binding hid, by rw [hmodule, hid']⟩
  rw [hmodule] at hown
  obtain ⟨b, hb, -⟩ := (h.before.laid.own _ hmem id).mp hown
  rw [getElem?_eq_none hge] at hb
  cases hb

theorem loaded_new (hge : base.modules.length ≤ m) (hm : m < out.graph.modules.length) :
    (out.graph.module m).loaded = some (nextLoad base) := by
  refine h.loaded _ ?_
  rw [mem_iff_getElem?]
  refine ⟨m - base.modules.length, ?_⟩
  rw [getElem?_drop, Nat.add_sub_cancel' hge]
  exact getElem?_module hm

theorem loaded_old (hm : m < base.modules.length) :
    (out.graph.module m).loaded ≠ some (nextLoad base) := by
  rw [h.conservative.module hm]
  intro heq
  have hlt := lt_nextLoad (mem_modules hm)
  rw [heq] at hlt
  exact Nat.lt_irrefl _ hlt

theorem loadsOf_eq (hmodules : base.modules.length < out.graph.modules.length) :
    loadsOf out.graph = loadsOf base ++ [some (nextLoad base)] := by
  refine Ulo.loadsOf_eq ?_ fun load => ?_
  · refine (loadsOf_sorted base).snoc fun a ha => ?_
    obtain ⟨m, hm, rfl⟩ := mem_loadsOf.mp ha
    exact lt_nextLoad hm
  · rw [mem_append, mem_loadsOf, mem_singleton, h.modules_eq]
    simp only [mem_append, or_and_right, exists_or]
    refine or_congr_right ⟨?_, ?_⟩
    · rintro rfl
      exact ⟨_, getElem_mem (by simpa using Nat.sub_pos_of_lt hmodules), h.loaded _
        (getElem_mem (n := 0) _)⟩
    · rintro ⟨m, hm, rfl⟩
      exact h.loaded m hm

theorem loaded_singleton (hid : id ∈ out.singletons) :
    (out.graph.module (out.graph.binding id).origin).loaded = some (nextLoad base) := by
  have hlt : id < out.graph.bindings.length :=
    (h.wired.mem_connectOrder.mp (h.order ▸ mem_append_right _ hid)).1
  exact h.loaded_new (h.origin_new (h.fresh id hid) hlt)
    (h.wired.laid.origins _ (binding_mem hlt))

/-- An earlier group has the singletons it had. -/
theorem groupSingletons_old (hload : load ≠ some (nextLoad base)) :
    groupSingletons out.graph load = groupSingletons base load := by
  unfold groupSingletons
  have hnew : out.singletons.filter (fun id => decide
      ((out.graph.module (out.graph.binding id).origin).loaded = load)) = [] := by
    refine filter_eq_nil_iff.mpr fun id hid => ?_
    rw [h.loaded_singleton hid, decide_eq_true_eq]
    exact fun heq => hload heq.symm
  rw [h.order, filter_append, hnew, append_nil]
  refine filter_congr fun id hid => ?_
  have hlt : id < base.bindings.length := (h.before.mem_connectOrder.mp hid).1
  rw [h.conservative.binding hlt, h.conservative.module (h.origin_old hlt)]

/-- The load's own group has the singletons it connects. -/
theorem groupSingletons_new :
    groupSingletons out.graph (some (nextLoad base)) = out.singletons := by
  unfold groupSingletons
  have hold : base.connectOrder.filter (fun id => decide
      ((out.graph.module (out.graph.binding id).origin).loaded = some (nextLoad base))) = [] := by
    refine filter_eq_nil_iff.mpr fun id hid => ?_
    have hlt : id < base.bindings.length := (h.before.mem_connectOrder.mp hid).1
    rw [h.conservative.binding hlt, decide_eq_true_eq]
    exact h.loaded_old (h.origin_old hlt)
  rw [h.order, filter_append, hold, nil_append]
  exact filter_eq_self.mpr fun id hid => decide_eq_true (h.loaded_singleton hid)

theorem groupModules_old (hload : load ≠ some (nextLoad base)) :
    groupModules out.graph load = groupModules base load := by
  unfold groupModules
  have hnew : (out.graph.modules.drop base.modules.length).filter (·.loaded = load) = [] := by
    refine filter_eq_nil_iff.mpr fun m hm => ?_
    rw [h.loaded m hm, decide_eq_true_eq]
    exact fun heq => hload heq.symm
  rw [h.modules_eq, filter_append, hnew, append_nil]

theorem groupModules_new :
    groupModules out.graph (some (nextLoad base)) = newModules base out.graph := by
  unfold groupModules newModules
  have hold : base.modules.filter (·.loaded = some (nextLoad base)) = [] := by
    refine filter_eq_nil_iff.mpr fun m hm => ?_
    rw [decide_eq_true_eq]
    intro heq
    exact Nat.lt_irrefl _ (heq ▸ lt_nextLoad hm)
  have hnew : (out.graph.modules.drop base.modules.length).filter
      (·.loaded = some (nextLoad base)) = out.graph.modules.drop base.modules.length :=
    filter_eq_self.mpr fun m hm => decide_eq_true (h.loaded m hm)
  rw [show out.graph.modules.filter (·.loaded = some (nextLoad base)) =
    out.graph.modules.drop base.modules.length by
      nth_rewrite 1 [h.modules_eq]
      rw [filter_append, hold, hnew, nil_append]]
  -- ids are positions
  refine ext_getElem? fun i => ?_
  rw [getElem?_map, getElem?_drop]
  rcases Nat.lt_or_ge (base.modules.length + i) out.graph.modules.length with hi | hi
  · rw [getElem?_module hi, Option.map_some,
      h.wired.laid.moduleIds _ _ (getElem?_module hi), getElem?_range' (by omega)]
    simp
  · rw [getElem?_eq_none hi, Option.map_none, getElem?_eq_none (by simp; omega)]

theorem hooksOf_old
    (howner : owner ∈ hookPlan base (groupSingletons base load) (groupModules base load)) :
    hooksOf out.graph owner = hooksOf base owner := by
  rcases mem_hookPlan.mp howner with ⟨id, hid, rfl⟩ | ⟨id, hid, rfl⟩
  · have hlt := (h.before.mem_connectOrder.mp (mem_of_mem_filter hid)).1
    exact congrArg (·.record.hooks) (h.conservative.binding hlt)
  · obtain ⟨m, hm, rfl⟩ := mem_map.mp hid
    exact congrArg (·.hooks) (h.conservative.module
      (h.before.laid.module_lt (mem_of_mem_filter hm)))

/-- **An earlier group is walked as it was.** -/
theorem startupWalk_old (hload : load ≠ some (nextLoad base)) (kind : HookKind) :
    startupWalk out.graph kind (groupSingletons out.graph load) (groupModules out.graph load) =
      startupWalk base kind (groupSingletons base load) (groupModules base load) := by
  unfold startupWalk
  rw [h.groupSingletons_old hload, h.groupModules_old hload, hookPlan_congr fun id hid => ?_]
  · refine flatMap_congr fun owner howner => ?_
    unfold hooksOfKind
    rw [h.hooksOf_old howner]
  · have hlt := (h.before.mem_connectOrder.mp (mem_of_mem_filter hid)).1
    rw [h.conservative.binding hlt]

end LoadStep

/-! ## Histories -/

/-- A group of the application as it was connected: the graph of that moment, and
the singletons and modules that `connect` was given. -/
structure Group where
  graph : Graph
  singletons : List BindingId
  modules : List ModuleId

/-- The hooks of a kind as the group's startup walked them. -/
def Group.walk (group : Group) (kind : HookKind) : List (HookOwner × ℕ) :=
  startupWalk group.graph kind group.singletons group.modules

/-- **The graph of an application, and the groups it was connected in**, the last
one first. A load of a module that is there connects nothing. -/
inductive Graph.History : Graph → List Group → Prop
  | connect {cat : Catalog} {root : Fin cat.size} {env : WireEnv}
      {plan : Option (TestPlan cat.size)} {g : Graph} (h : wire cat root env plan = .ok g) :
      History g [⟨g, g.connectOrder, g.modules.map (·.id)⟩]
  | load {cat : Catalog} {base : Graph} {groups : List Group} {m : Fin cat.size} {env : WireEnv}
      {location : Location} {out : LazyWiring} (hbase : History base groups)
      (hnew : base.byIdentity (cat.module m).identity = none)
      (h : wireLazy cat base m env location = .ok out) :
      History out.graph (⟨out.graph, out.singletons, newModules base out.graph⟩ :: groups)
  | again {cat : Catalog} {base : Graph} {groups : List Group} {m : Fin cat.size} {env : WireEnv}
      {location : Location} {out : LazyWiring} {existing : ModuleId}
      (hbase : History base groups)
      (hold : base.byIdentity (cat.module m).identity = some existing)
      (h : wireLazy cat base m env location = .ok out) : History out.graph groups

theorem Graph.History.wired {groups : List Group} (h : g.History groups) : g.Wired := by
  induction h with
  | connect h => exact wire_wired h
  | load _ _ h ih | again _ _ h ih => exact wireLazy_wired ih h

/-- The shutdown order reverses the walk of each group that it finds in the graph. -/
theorem shutdownPlan_groups (g : Graph) (kind : HookKind) :
    shutdownPlan g kind = (loadsOf g).reverse.flatMap fun load =>
      (startupWalk g kind (groupSingletons g load) (groupModules g load)).reverse := by
  unfold shutdownPlan startupWalk hooksOfKind
  refine flatMap_congr fun load _ => ?_
  rw [reverse_flatMap]
  refine flatMap_congr fun owner _ => ?_
  rw [Function.comp_apply, ← map_reverse, ← filter_reverse]

theorem wire_loaded (h : wire cat root env plan = .ok g) : ∀ m ∈ g.modules, m.loaded = none := by
  intro m hm
  have hext := wire_extending h
  obtain ⟨rfl, -, -⟩ := wire_eq_ok h
  rw [(wiredGraph_sameShape _ _).modules] at hm
  exact hext.frozen.loaded m hm

/-- The graph that `wire` answers is one group. -/
theorem wire_shutdownPlan (h : wire cat root env plan = .ok g) (kind : HookKind) :
    shutdownPlan g kind = (startupWalk g kind g.connectOrder (g.modules.map (·.id))).reverse := by
  have hloaded := wire_loaded h
  have hg := wire_wired h
  have hsingletons : groupSingletons g none = g.connectOrder := by
    refine filter_eq_self.mpr fun id hid => decide_eq_true ?_
    have hlt := (hg.mem_connectOrder.mp hid).1
    exact hloaded _ (mem_modules (hg.laid.origins _ (binding_mem hlt)))
  have hmodules : groupModules g none = g.modules.map (·.id) :=
    congrArg (map _) (filter_eq_self.mpr fun m hm => decide_eq_true (hloaded m hm))
  rw [shutdownPlan_groups]
  by_cases hnil : g.modules = []
  · -- without modules there are no bindings either
    have hempty : g.connectOrder = [] := by
      refine eq_nil_iff_forall_not_mem.mpr fun id hid => ?_
      have hlt := hg.laid.origins _ (binding_mem (hg.mem_connectOrder.mp hid).1)
      rw [hnil] at hlt
      exact Nat.not_lt_zero _ hlt
    have hloads : loadsOf g = [] := loadsOf_eq List.Pairwise.nil (by simp [hnil])
    rw [hloads, hempty, hnil]
    rfl
  · obtain ⟨m, hm⟩ := exists_mem_of_ne_nil _ hnil
    have hloads : loadsOf g = [none] := by
      refine loadsOf_eq (pairwise_singleton _ _) fun load => ?_
      rw [mem_singleton]
      constructor
      · rintro rfl
        exact ⟨m, hm, hloaded m hm⟩
      · rintro ⟨m', hm', rfl⟩
        exact hloaded m' hm'
    rw [hloads, reverse_singleton, flatMap_singleton, hsingletons, hmodules]

/-- A load puts its own group in front. -/
theorem LoadStep.shutdownPlan_eq (h : LoadStep base out) (kind : HookKind) :
    shutdownPlan out.graph kind =
      (startupWalk out.graph kind out.singletons (newModules base out.graph)).reverse ++
        shutdownPlan base kind := by
  have hearlier : ∀ load ∈ (loadsOf base).reverse,
      (startupWalk out.graph kind (groupSingletons out.graph load)
        (groupModules out.graph load)).reverse =
      (startupWalk base kind (groupSingletons base load) (groupModules base load)).reverse := by
    intro load hload
    rw [h.startupWalk_old fun heq => ?_]
    obtain ⟨m, hm, hloaded⟩ := mem_loadsOf.mp (mem_reverse.mp hload)
    exact Nat.lt_irrefl _ ((hloaded.trans heq) ▸ lt_nextLoad hm)
  rw [shutdownPlan_groups, shutdownPlan_groups base, ← flatMap_congr hearlier]
  rcases Nat.lt_or_ge base.modules.length out.graph.modules.length with hlt | hge
  · rw [h.loadsOf_eq hlt, reverse_append, flatMap_append, reverse_singleton,
      flatMap_singleton, h.groupSingletons_new, h.groupModules_new]
  · -- a load that brought no module brought nothing
    have hmodules : out.graph.modules = base.modules :=
      (h.conservative.modules.eq_of_length_le hge).symm
    have hsingletons : out.singletons = [] := by
      refine eq_nil_iff_forall_not_mem.mpr fun id hid => ?_
      have hlt : id < out.graph.bindings.length :=
        (h.wired.mem_connectOrder.mp (h.order ▸ mem_append_right _ hid)).1
      have horigin := h.wired.laid.origins _ (binding_mem hlt)
      exact absurd (horigin.trans_le hge) (Nat.not_lt.mpr (h.origin_new (h.fresh id hid) hlt))
    have hloads : loadsOf out.graph = loadsOf base := by unfold loadsOf; rw [hmodules]
    rw [hloads, hsingletons, newModules, hmodules, Nat.sub_self]
    rfl

/-- **Shutdown reverses startup, group by group.** -/
theorem Graph.History.shutdownPlan_eq {groups : List Group} (h : g.History groups)
    (kind : HookKind) :
    shutdownPlan g kind = groups.flatMap fun group => (group.walk kind).reverse := by
  induction h with
  | connect h =>
    rw [wire_shutdownPlan h, flatMap_singleton]
    rfl
  | load hbase hnew h ih =>
    rw [(wireLazy_step hbase.wired hnew h).shutdownPlan_eq, ih, flatMap_cons]
    rfl
  | again _ hold h ih =>
    rw [wireLazy_existing hold h]
    exact ih

/-! ## Every hook once -/

/-- What owns hooks in a graph: its singletons and its modules. -/
def Graph.Owns (g : Graph) : HookOwner → Prop
  | .binding id => id ∈ g.connectOrder
  | .module id => id < g.modules.length

/-- The hook at a position is of a kind. -/
def HookAt (g : Graph) (kind : HookKind) (owner : HookOwner) (position : ℕ) : Prop :=
  ∃ hook, (hooksOf g owner)[position]? = some hook ∧ hook.kind = kind

/-- The load that brought an owner. -/
def ownerLoad (g : Graph) : HookOwner → Option ℕ
  | .binding id => (g.module (g.binding id).origin).loaded
  | .module id => (g.module id).loaded

theorem mem_startupWalk : (owner, position) ∈ startupWalk g kind singletons modules ↔
      owner ∈ hookPlan g singletons modules ∧ HookAt g kind owner position := by
  simp only [startupWalk, hooksOfKind, mem_flatMap, mem_map, mem_filter,
    Prod.mk.injEq, decide_eq_true_eq, HookAt]
  constructor
  · rintro ⟨_, howner, ⟨hook, i⟩, ⟨hmem, hkind⟩, rfl, rfl⟩
    exact ⟨howner, hook, mem_zipIdx_iff_getElem?.mp hmem, hkind⟩
  · rintro ⟨howner, hook, hget, hkind⟩
    exact ⟨owner, howner, (hook, position), ⟨mem_zipIdx_iff_getElem?.mpr hget, hkind⟩, rfl, rfl⟩

theorem startupWalk_nodup (hsingletons : singletons.Nodup) (hmodules : modules.Nodup) :
    (startupWalk g kind singletons modules).Nodup := by
  refine nodup_flatMap.mpr ⟨fun owner _ => ?_, ?_⟩
  · -- positions in the list of an owner's hooks are distinct
    have hpositions : ((hooksOfKind g kind owner).map (·.2)).Nodup := by
      refine List.Nodup.sublist (List.Sublist.map _ filter_sublist) ?_
      rw [zipIdx_map_snd]
      exact nodup_range'
    refine List.Nodup.of_map Prod.snd ?_
    rwa [map_map]
  · refine (hookPlan_nodup hsingletons hmodules).imp fun {a b} hne => ?_
    intro x hx hy
    obtain ⟨_, -, rfl⟩ := mem_map.mp hx
    obtain ⟨_, -, heq⟩ := mem_map.mp hy
    exact hne (congrArg Prod.fst heq).symm

theorem Graph.Laid.moduleIds_nodup (hg : g.Laid) : (g.modules.map (·.id)).Nodup := by
  have hids : g.modules.map (·.id) = range g.modules.length := by
    refine ext_getElem? fun i => ?_
    rw [getElem?_map]
    rcases Nat.lt_or_ge i g.modules.length with hi | hi
    · rw [getElem?_module hi, Option.map_some, hg.moduleIds i _ (getElem?_module hi),
        getElem?_range hi]
    · rw [getElem?_eq_none hi, Option.map_none, getElem?_eq_none (by simpa using hi)]
  rw [hids]
  exact nodup_range

section Complete

variable {g : Graph} (hg : g.Wired) {owner : HookOwner}
include hg

theorem Graph.Wired.mem_groupPlan :
    owner ∈ hookPlan g (groupSingletons g load) (groupModules g load) ↔
      g.Owns owner ∧ ownerLoad g owner = load := by
  rw [mem_hookPlan]
  cases owner with
  | binding => simp [groupSingletons, Graph.Owns, ownerLoad]
  | module id =>
    simp only [reduceCtorEq, and_false, exists_false, HookOwner.module.injEq, false_or,
      exists_eq_right', Graph.Owns, ownerLoad, groupModules, mem_map, mem_filter,
      decide_eq_true_eq]
    constructor
    · rintro ⟨m, ⟨hm, hload⟩, rfl⟩
      have hlt := hg.laid.module_lt hm
      obtain ⟨i, hi, rfl⟩ := mem_iff_getElem.mp hm
      have hid := hg.laid.moduleIds i _ (getElem?_eq_getElem hi)
      refine ⟨hlt, ?_⟩
      rw [hid, Graph.module, getD_eq_getElem?_getD, getElem?_eq_getElem hi]
      exact hload
    · rintro ⟨hlt, hload⟩
      exact ⟨g.module id, ⟨mem_modules hlt, hload⟩,
        hg.laid.moduleIds id _ (getElem?_module hlt)⟩

/-- An owner's load is one of the graph's. -/
theorem Graph.Wired.ownerLoad_mem (h : g.Owns owner) : ownerLoad g owner ∈ loadsOf g := by
  refine mem_loadsOf.mpr ?_
  cases owner with
  | binding =>
    have hlt := (hg.mem_connectOrder.mp h).1
    exact ⟨_, mem_modules (hg.laid.origins _ (binding_mem hlt)), rfl⟩
  | module => exact ⟨_, mem_modules h, rfl⟩

/-- **The shutdown order has exactly the hooks of the graph.** -/
theorem Graph.Wired.mem_shutdownPlan :
    (owner, position) ∈ shutdownPlan g kind ↔ g.Owns owner ∧ HookAt g kind owner position := by
  rw [shutdownPlan_groups]
  simp only [mem_flatMap, mem_reverse, mem_startupWalk, hg.mem_groupPlan]
  constructor
  · rintro ⟨load, -, ⟨howns, -⟩, hat⟩
    exact ⟨howns, hat⟩
  · rintro ⟨howns, hat⟩
    exact ⟨ownerLoad g owner, hg.ownerLoad_mem howns, ⟨howns, rfl⟩, hat⟩

theorem Graph.Wired.connectOrder_nodup : g.connectOrder.Nodup := by
  rw [hg.connectOrder, (connectOrder_perm hg.readsInBounds).nodup_iff]
  exact singletonIds_nodup g

/-- **It has each of them once.** -/
theorem Graph.Wired.shutdownPlan_nodup (kind : HookKind) : (shutdownPlan g kind).Nodup := by
  rw [shutdownPlan_groups]
  refine nodup_flatMap.mpr ⟨fun load _ => ?_, ?_⟩
  · rw [nodup_reverse]
    exact startupWalk_nodup (hg.connectOrder_nodup.filter _)
      (hg.laid.moduleIds_nodup.sublist (List.Sublist.map _ filter_sublist))
  · have hdistinct : (loadsOf g).reverse.Nodup := by
      rw [nodup_reverse]
      refine (loadsOf_sorted g).imp fun {a b} hlt heq => ?_
      rw [heq] at hlt
      exact Nat.lt_irrefl _ hlt
    refine hdistinct.imp fun {a b} hne x hx hy => ?_
    -- an owner is in the group of its load only
    have hx' := (hg.mem_groupPlan.mp (mem_startupWalk.mp (mem_reverse.mp hx)).1).2
    have hy' := (hg.mem_groupPlan.mp (mem_startupWalk.mp (mem_reverse.mp hy)).1).2
    exact hne (hx'.symm.trans hy')

end Complete

end Ulo
