import Ulo.Graph.Plan

/-!
# What freezing lays out

Freezing appends: the modules, bindings and handlers of a base graph stay where
they are, and those of the registry's nodes come after them, under ids that are
their positions. The module that a binding came from lists it, its handlers
point at controllers of their own module, and a collection holds the
contributions in the order of their ids.

`freezeNode_layout` says what one node adds; the invariant `Freezing.Layout` is
carried from node to node. Mounting controllers and declaring inputs writes to
fields of its own, and is shown to leave the rest alone first (`Freezing.core`).

Nothing is moved or renumbered, so an id of the base graph stays good in every
graph that extends it, and "new" means "at a position behind the base's". The roles
are marked last and over all bindings, which is why `Frozen` has the bindings twice:
`unmarked`, as they were laid out, and with the roles that these give.
-/

namespace Ulo

open List

/-! ## What one node adds -/

/-- The state without what mounting controllers and declaring inputs writes:
the handlers, the inputs and the errors. -/
def Freezing.core (s : Freezing) : Freezing where
  graph := { s.graph with handlers := [], inputs := ∅ }
  declared := { s.declared with inputs := [], transportInputs := [] }
  contributions := s.contributions

theorem foldl_core {α : Type} {f : Freezing → α → Freezing}
    (hf : ∀ s a, (f s a).core = s.core) (l : List α) (s : Freezing) :
    (l.foldl f s).core = s.core := by
  induction l generalizing s with
  | nil => rfl
  | cons a l ih => exact (ih (f s a)).trans (hf s a)

theorem declareTransportInputs_core (s : Freezing) (decl : HandlerDecl) :
    (declareTransportInputs s decl).core = s.core := by
  unfold declareTransportInputs
  split <;> rfl

theorem declareTransportInputs_handlers (s : Freezing) (decl : HandlerDecl) :
    (declareTransportInputs s decl).graph.handlers = s.graph.handlers := by
  unfold declareTransportInputs
  split <;> rfl

theorem mountController_core (name : ModuleName) (id : ModuleId) (first count : ℕ)
    (s : Freezing) (c : ControllerRecord × ℕ) :
    (mountController name id first count s c).core = s.core := by
  unfold mountController
  split
  · exact foldl_core declareTransportInputs_core (c.1.mount.decls id c.2) s
  · rfl

/-- The handlers that one controller of the node `id` mounts. -/
def mounted (id : ModuleId) (first count : ℕ) (c : ControllerRecord × ℕ) :
    List HandlerRecord :=
  if c.1.binding < count then
    (c.1.mount.decls id c.2).map fun decl =>
      ⟨first + c.1.binding, id, c.1.mountPrefix.map Prod.fst, decl⟩
  else []

section

variable (name : ModuleName) (id : ModuleId)
include name id

theorem mountController_handlers (first count : ℕ) (s : Freezing) (c : ControllerRecord × ℕ) :
    (mountController name id first count s c).graph.handlers =
      s.graph.handlers ++ mounted id first count c := by
  have hdecls : ∀ (decls : List HandlerDecl) (s : Freezing),
      (decls.foldl declareTransportInputs s).graph.handlers = s.graph.handlers := by
    intro decls
    induction decls with
    | nil => exact fun _ => rfl
    | cons decl decls ih =>
      exact fun s => (ih _).trans (declareTransportInputs_handlers s decl)
  unfold mountController mounted
  split
  · dsimp only
    rw [hdecls]
  · exact (append_nil _).symm

theorem foldl_mountController_handlers (first count : ℕ) (cs : List (ControllerRecord × ℕ))
    (s : Freezing) : (cs.foldl (mountController name id first count) s).graph.handlers =
      s.graph.handlers ++ cs.flatMap (mounted id first count) := by
  induction cs generalizing s with
  | nil => simp
  | cons c cs ih =>
    rw [foldl_cons, ih, mountController_handlers, flatMap_cons, append_assoc]

theorem declareInput_core (s : Freezing) (input : InputRecord) :
    (declareInput name id s input).core = s.core := rfl

theorem foldl_declareInput_handlers (inputs : List InputRecord) (s : Freezing) :
    (inputs.foldl (declareInput name id) s).graph.handlers = s.graph.handlers := by
  induction inputs generalizing s with
  | nil => rfl
  | cons input inputs ih => exact ih _

end

/-- **What one node adds** to the layout, and to the handlers. -/
theorem freezeNode_core (r : Registry) (names : List ModuleName) (load : Option ℕ)
    (firstModule : ℕ) (s : Freezing) (index position : ℕ) (node : ModuleNode) :
    let id := firstModule + position
    let first := s.graph.bindings.length
    let new := frozenBindings node id first
    let module := frozenModule r (Registry.nameOf names index) load firstModule index id
      (range' first node.bindings.length) node
    let s' := freezeNode r names load firstModule s index position node
    s'.core =
      { graph := { s.core.graph with
          bindings := s.graph.bindings ++ new, modules := s.graph.modules ++ [module] }
        declared := { s.core.declared with
          exports := s.declared.exports ++ node.exports.map fun e => (id, e)
          metas := s.declared.metas ++ node.metas.map fun entry => (id, entry) }
        contributions := new.foldl addContribution s.contributions } ∧
    s'.graph.handlers = s.graph.handlers ++
      node.controllers.zipIdx.flatMap (mounted id first node.bindings.length) := by
  intro id first new module s'
  set start := freezeBindings node id
    { s with moduleErrors := s.moduleErrors ++ nodeErrors (Registry.nameOf names index) node }
    with hstart
  set mountedState := node.controllers.zipIdx.foldl
    (mountController (Registry.nameOf names index) id first node.bindings.length) start
    with hmounted
  set declared := node.inputs.foldl (declareInput (Registry.nameOf names index) id) mountedState
    with hdeclared
  have hcore : declared.core = start.core :=
    (foldl_core (declareInput_core _ id) node.inputs mountedState).trans
      (foldl_core (mountController_core _ id first node.bindings.length) _ start)
  have hhandlers : declared.graph.handlers = start.graph.handlers ++
      node.controllers.zipIdx.flatMap (mounted id first node.bindings.length) :=
    (foldl_declareInput_handlers _ id node.inputs mountedState).trans
      (foldl_mountController_handlers _ id first node.bindings.length _ start)
  refine ⟨?_, hhandlers⟩
  have hs' : s'.core =
      { declared.core with
        graph := { declared.core.graph with modules := declared.core.graph.modules ++ [module] }
        declared := { declared.core.declared with
          exports := declared.core.declared.exports ++ node.exports.map fun e => (id, e)
          metas := declared.core.declared.metas ++ node.metas.map fun entry => (id, entry) } } :=
    rfl
  rw [hs', hcore]
  rfl

/-! ## The layout -/

/-- **A graph whose ids are positions**: a binding comes from a module, which
lists it, and a handler's controller from the handler's module. -/
structure Graph.Laid (g : Graph) : Prop where
  ids : ∀ (i : ℕ) (b : FrozenBinding), g.bindings[i]? = some b → b.id = i
  moduleIds : ∀ (i : ℕ) (m : FrozenModule), g.modules[i]? = some m → m.id = i
  origins : ∀ b ∈ g.bindings, b.origin < g.modules.length
  own : ∀ m ∈ g.modules, ∀ id, id ∈ m.bindings ↔
    ∃ b : FrozenBinding, g.bindings[id]? = some b ∧ b.origin = m.id
  handlers : ∀ h ∈ g.handlers, ∃ b : FrozenBinding, g.bindings[h.controller]? = some b ∧
    b.origin = h.module ∧ b.record.controller = true ∧ b.record.kind = .single

theorem Graph.laid_empty : ({} : Graph).Laid := by
  constructor <;> simp

/-- The ids of the contributions to a key among some bindings. -/
def contributionsTo (key : Key) (bindings : List FrozenBinding) : List BindingId :=
  (bindings.filter fun b => contributesTo key b.record).map (·.id)

theorem contributionsTo_append (key : Key) (l l' : List FrozenBinding) :
    contributionsTo key (l ++ l') = contributionsTo key l ++ contributionsTo key l' := by
  simp [contributionsTo]

theorem lookup_addContribution (key : Key) (c : Map Key (List BindingId)) (b : FrozenBinding) :
    (addContribution c b).lookup key =
      if contributesTo key b.record then some ((c.lookup key).getD [] ++ [b.id])
      else c.lookup key := by
  unfold addContribution contributesTo
  by_cases hkind : b.record.kind = .collection
  · by_cases hkey : recordKey b.record = key
    · subst hkey
      simp [hkind]
    · simp [hkind, hkey, AList.lookup_insert_ne (Ne.symm hkey)]
  · simp [hkind]

theorem foldl_addContribution (key : Key) (bindings : List FrozenBinding)
    (c : Map Key (List BindingId)) :
    (bindings.foldl addContribution c).lookup key =
      if contributionsTo key bindings = [] then c.lookup key
      else some ((c.lookup key).getD [] ++ contributionsTo key bindings) := by
  induction bindings generalizing c with
  | nil => simp [contributionsTo]
  | cons b bindings ih =>
    rw [foldl_cons, ih, lookup_addContribution]
    by_cases hb : contributesTo key b.record = true
    · by_cases hrest : contributionsTo key bindings = []
      · have hcons : contributionsTo key (b :: bindings) = [b.id] := by
          simpa [contributionsTo, hb] using hrest
        simp [hb, hrest, hcons]
      · have hcons : contributionsTo key (b :: bindings) =
            b.id :: contributionsTo key bindings := by
          simp [contributionsTo, hb]
        simp [hb, hrest, hcons]
    · have hcons : contributionsTo key (b :: bindings) = contributionsTo key bindings := by
        simp [contributionsTo, hb]
      simp [hb, hcons]

/-- **The invariant of freezing** a registry after a base graph. -/
structure Freezing.Layout (base : Graph) (r : Registry) (load : Option ℕ) (s : Freezing) :
    Prop where
  laid : s.graph.Laid
  bindings : base.bindings <+: s.graph.bindings
  modules : base.modules <+: s.graph.modules
  /-- Everything else of the graph is the base graph's. -/
  rest : { s.core.graph with bindings := [], modules := [] } =
    { base with bindings := [], modules := [], handlers := [], inputs := ∅ }
  first : s.declared.firstModule = base.modules.length ∧
    s.declared.firstBinding = base.bindings.length ∧
    s.declared.firstHandler = base.handlers.length
  /-- A new binding is a record of a node. -/
  held : ∀ b ∈ s.graph.bindings.drop base.bindings.length, ∃ i ∈ r.postOrder,
    b.record ∈ (r.node i).bindings
  contributions : ∀ key, s.contributions.lookup key =
    present (contributionsTo key (s.graph.bindings.drop base.bindings.length))
  /-- A new export is a new module's. -/
  exports : ∀ e ∈ s.declared.exports, base.modules.length ≤ e.1
  loaded : ∀ m ∈ s.graph.modules.drop base.modules.length, m.loaded = load

theorem getElem?_frozenBindings (node : ModuleNode) (id : ModuleId) (first i : ℕ) :
    (frozenBindings node id first)[i]? =
      node.bindings[i]?.map (frozenBinding node id first i) := by
  simp [frozenBindings, getElem?_mapIdx]

theorem mem_mounted {id : ModuleId} {first count : ℕ} {c : ControllerRecord × ℕ}
    {h : HandlerRecord} (hmem : h ∈ mounted id first count c) :
    c.1.binding < count ∧ h.controller = first + c.1.binding ∧ h.module = id ∧
      h.decl ∈ c.1.mount.decls id c.2 := by
  unfold mounted at hmem
  split at hmem
  · rename_i hlt
    obtain ⟨decl, hdecl, rfl⟩ := mem_map.mp hmem
    exact ⟨hlt, rfl, rfl, hdecl⟩
  · cases hmem

variable {b : FrozenBinding} {i : ℕ}

/-- A binding of the graph or of the node appended to it. -/
theorem getElem?_append_cases {l l' : List FrozenBinding} (h : (l ++ l')[i]? = some b) :
    l[i]? = some b ∨ ∃ j, i = l.length + j ∧ l'[j]? = some b := by
  rcases Nat.lt_or_ge i l.length with hlt | hge
  · exact .inl (by rwa [getElem?_append_left hlt] at h)
  · rw [getElem?_append_right hge] at h
    exact .inr ⟨i - l.length, by omega, h⟩

variable {node : ModuleNode} {r : Registry} {base g : Graph} {load : Option ℕ} {s : Freezing}

/-- **One node keeps ids positions.** -/
theorem Graph.Laid.append {g' : Graph} (h : g.Laid) (hmarked : node.toModuleContent.Marked)
    {m : FrozenModule} (hbindings : g'.bindings = g.bindings ++
      frozenBindings node g.modules.length g.bindings.length)
    (hmodules : g'.modules = g.modules ++ [m]) (hid : m.id = g.modules.length)
    (hown : m.bindings = List.range' g.bindings.length node.bindings.length)
    (hhandlers : g'.handlers = g.handlers ++ node.controllers.zipIdx.flatMap
      (mounted g.modules.length g.bindings.length node.bindings.length)) : g'.Laid := by
  have hold : ∀ {i : ℕ} {b : FrozenBinding}, g.bindings[i]? = some b →
      g'.bindings[i]? = some b := fun hi => by
    rw [hbindings, List.getElem?_append_left (List.getElem?_eq_some_iff.mp hi).1, hi]
  have hnew : ∀ {i : ℕ} {r : BindingRecord}, node.bindings[i]? = some r →
      g'.bindings[g.bindings.length + i]? =
        some (frozenBinding node g.modules.length g.bindings.length i r) := fun hi => by
    rw [hbindings, getElem?_append_right (by omega), Nat.add_sub_cancel_left,
      getElem?_frozenBindings, hi]
    rfl
  have hcases : ∀ {i : ℕ} {b : FrozenBinding}, g'.bindings[i]? = some b →
      g.bindings[i]? = some b ∨
        ∃ j r, i = g.bindings.length + j ∧ node.bindings[j]? = some r ∧
          b = frozenBinding node g.modules.length g.bindings.length j r := fun hi => by
    rw [hbindings] at hi
    rcases getElem?_append_cases hi with hi | ⟨j, rfl, hj⟩
    · exact .inl hi
    · rw [getElem?_frozenBindings] at hj
      obtain ⟨r, hr, rfl⟩ := Option.map_eq_some_iff.mp hj
      exact .inr ⟨j, r, rfl, hr, rfl⟩
  refine ⟨fun i b hi => ?_, fun i m' hi => ?_, fun b hb => ?_, fun m' hm' id => ?_,
    fun h' hh' => ?_⟩
  · rcases hcases hi with hi | ⟨j, r, rfl, -, rfl⟩
    · exact h.ids i b hi
    · rfl
  · rw [hmodules] at hi
    rcases Nat.lt_or_ge i g.modules.length with hlt | hge
    · exact h.moduleIds i m' (by rwa [List.getElem?_append_left hlt] at hi)
    · have hlen := (List.getElem?_eq_some_iff.mp hi).1
      simp only [List.length_append, List.length_singleton] at hlen
      obtain rfl : i = g.modules.length := by omega
      obtain rfl : m = m' := by simpa using hi
      exact hid
  · obtain ⟨i, hi⟩ := mem_iff_getElem?.mp hb
    rw [hmodules, length_append, length_singleton]
    rcases hcases hi with hi | ⟨j, r, rfl, -, rfl⟩
    · exact (h.origins b (mem_of_getElem? hi)).trans (Nat.lt_succ_self _)
    · exact Nat.lt_succ_self _
  · rw [hmodules] at hm'
    rcases mem_append.mp hm' with hm' | hm'
    · -- the new bindings come from a module with a larger id
      rw [h.own m' hm']
      refine ⟨fun ⟨b, hb, horigin⟩ => ⟨b, hold hb, horigin⟩, fun ⟨b, hb, horigin⟩ => ?_⟩
      rcases hcases hb with hb | ⟨j, r, rfl, -, rfl⟩
      · exact ⟨b, hb, horigin⟩
      · obtain ⟨i, hi⟩ := List.mem_iff_getElem?.mp hm'
        have hlt := (List.getElem?_eq_some_iff.mp hi).1
        rw [h.moduleIds i m' hi] at horigin
        exact absurd horigin (Nat.ne_of_gt hlt)
    · obtain rfl := mem_singleton.mp hm'
      rw [hown, mem_range'_1, hid]
      constructor
      · rintro ⟨hge, hlt⟩
        obtain ⟨j, rfl⟩ := Nat.exists_eq_add_of_le hge
        have hj : node.bindings[j]? = some node.bindings[j] :=
          getElem?_eq_getElem (by omega)
        exact ⟨_, hnew hj, rfl⟩
      · rintro ⟨b, hb, horigin⟩
        rcases hcases hb with hb | ⟨j, r, rfl, hj, -⟩
        · exact absurd horigin (Nat.ne_of_lt (h.origins b (List.mem_of_getElem? hb)))
        · have := (List.getElem?_eq_some_iff.mp hj).1
          omega
  · rw [hhandlers] at hh'
    rcases mem_append.mp hh' with hh' | hh'
    · obtain ⟨b, hb, hrest⟩ := h.handlers h' hh'
      exact ⟨b, hold hb, hrest⟩
    · obtain ⟨c, hc, hmem⟩ := mem_flatMap.mp hh'
      obtain ⟨-, hcontroller, hmodule, -⟩ := mem_mounted hmem
      obtain ⟨r, hr, hflag, hkind⟩ := hmarked.controllers c.1 (fst_mem_of_mem_zipIdx hc)
      rw [hcontroller, hmodule]
      exact ⟨_, hnew hr, rfl, hflag, hkind⟩

theorem Registry.node_of_getElem? {index : ℕ} (h : r.nodes[index]? = some node) :
    r.node index = node := by
  simp [Registry.node, h]

/-- **One node keeps the layout.** -/
theorem freezeNode_layout (h : s.Layout base r load) (names : List ModuleName) {index position : ℕ}
    (hindex : index ∈ r.postOrder) (hnode : r.nodes[index]? = some node)
    (hmarked : node.toModuleContent.Marked)
    (hpos : base.modules.length + position = s.graph.modules.length) :
    (freezeNode r names load base.modules.length s index position node).Layout base r load ∧
    (freezeNode r names load base.modules.length s index position node).graph.modules.length =
      s.graph.modules.length + 1 := by
  obtain ⟨hcore, hhandlers⟩ := freezeNode_core r names load base.modules.length s index position
    node
  dsimp only at hcore hhandlers
  rw [hpos] at hcore hhandlers
  set s' := freezeNode r names load base.modules.length s index position node
  set m := frozenModule r (Registry.nameOf names index) load base.modules.length index
    s.graph.modules.length (range' s.graph.bindings.length node.bindings.length) node
  have hbindings : s'.graph.bindings = s.graph.bindings ++
      frozenBindings node s.graph.modules.length s.graph.bindings.length :=
    congrArg (·.graph.bindings) hcore
  have hmodules : s'.graph.modules = s.graph.modules ++ [m] := congrArg (·.graph.modules) hcore
  have hdropB : s'.graph.bindings.drop base.bindings.length =
      s.graph.bindings.drop base.bindings.length ++
        frozenBindings node s.graph.modules.length s.graph.bindings.length := by
    rw [hbindings, drop_append_of_le_length h.bindings.length_le]
  have hdropM : s'.graph.modules.drop base.modules.length =
      s.graph.modules.drop base.modules.length ++ [m] := by
    rw [hmodules, drop_append_of_le_length h.modules.length_le]
  refine ⟨⟨h.laid.append hmarked hbindings hmodules rfl rfl hhandlers, ?_, ?_, ?_, ?_,
    fun b hb => ?_, fun key => ?_, fun e he => ?_, fun m' hm' => ?_⟩, by rw [hmodules]; simp⟩
  · exact hbindings ▸ h.bindings.trans (prefix_append _ _)
  · exact hmodules ▸ h.modules.trans (prefix_append _ _)
  · rw [hcore]
    exact h.rest
  · have hfirst : s'.core.declared.firstModule = s.declared.firstModule ∧
        s'.core.declared.firstBinding = s.declared.firstBinding ∧
        s'.core.declared.firstHandler = s.declared.firstHandler := by
      rw [hcore]
      exact ⟨rfl, rfl, rfl⟩
    exact ⟨hfirst.1.trans h.first.1, hfirst.2.1.trans h.first.2.1, hfirst.2.2.trans h.first.2.2⟩
  · rw [hdropB] at hb
    rcases mem_append.mp hb with hb | hb
    · exact h.held b hb
    · obtain ⟨i, hi⟩ := mem_iff_getElem?.mp hb
      rw [getElem?_frozenBindings] at hi
      obtain ⟨record, hrecord, rfl⟩ := Option.map_eq_some_iff.mp hi
      refine ⟨index, hindex, ?_⟩
      rw [Registry.node_of_getElem? hnode]
      exact mem_of_getElem? hrecord
  · have hcontributions : s'.contributions =
        (frozenBindings node s.graph.modules.length s.graph.bindings.length).foldl
          addContribution s.contributions := congrArg (·.contributions) hcore
    rw [hcontributions, foldl_addContribution, h.contributions, present_getD, hdropB,
      contributionsTo_append]
    split
    · rename_i hnil
      rw [hnil, append_nil]
    · rename_i hne
      rw [present, if_neg (by simp [hne])]
  · have hexports : s'.declared.exports = s.declared.exports ++
        node.exports.map fun e => (s.graph.modules.length, e) :=
      congrArg (·.declared.exports) hcore
    rw [hexports] at he
    rcases mem_append.mp he with he | he
    · exact h.exports e he
    · obtain ⟨e', -, rfl⟩ := mem_map.mp he
      exact h.modules.length_le
  · rw [hdropM] at hm'
    rcases mem_snoc.mp hm' with hm' | hm'
    · exact h.loaded m' hm'
    · rw [hm']
      rfl

/-- The nodes of a registry that freezing reaches exist. -/
def Registry.Collected (r : Registry) : Prop :=
  r.postOrder.Nodup ∧ ∀ i ∈ r.postOrder, i < r.nodes.length

/-- **Freezing keeps the layout**, and every node of the order becomes a module. -/
theorem freezeNodes_layout (h : s.Layout base r load) (names : List ModuleName) (hmarked : r.Marked)
    (hcollected : r.Collected) (hstart : s.graph.modules.length = base.modules.length) :
    (freezeNodes r names load base.modules.length s).Layout base r load ∧
    (freezeNodes r names load base.modules.length s).graph.modules.length =
      base.modules.length + r.postOrder.length := by
  -- over a suffix of the order, the next position is the number of modules frozen so far
  suffices hrun : ∀ (order : List ℕ) (k : ℕ) (s : Freezing), s.Layout base r load →
      (∀ i ∈ order, i ∈ r.postOrder) → base.modules.length + k = s.graph.modules.length →
      ((order.zipIdx k).foldl (freezeStep r names load base.modules.length) s).Layout base r
        load ∧
      ((order.zipIdx k).foldl (freezeStep r names load base.modules.length) s).graph.modules.length
        = base.modules.length + k + order.length by
    exact hrun r.postOrder 0 s h (fun _ hi => hi) hstart.symm
  intro order
  induction order with
  | nil => exact fun k s hs _ hk => ⟨hs, hk.symm⟩
  | cons index order ih =>
    intro k s hs hmem hk
    have hindex := hmem index mem_cons_self
    have hnode := getElem?_eq_getElem (hcollected.2 index hindex)
    obtain ⟨hs', hlen⟩ := freezeNode_layout hs names hindex hnode
      (hmarked _ (getElem_mem _)) hk
    rw [zipIdx_cons, foldl_cons]
    simp only [freezeStep, hnode]
    have hrest := ih (k + 1) _ hs' (fun i hi => hmem i (mem_cons_of_mem _ hi)) (by omega)
    rw [length_cons]
    exact ⟨hrest.1, hrest.2.trans (by omega)⟩

/-! ## The frozen graph -/

/-- What the passes after freezing never change of a binding. -/
def FrozenBinding.shape (b : FrozenBinding) : BindingId × ModuleId × BindingRecord :=
  (b.id, b.origin, b.record)

@[simp] theorem markRole_shape (roles : List TypeId) (b : FrozenBinding) :
    (markRole roles b).shape = b.shape := by
  unfold markRole
  split <;> rfl

/-- **Two graphs with the same modules, handlers and binding records.** -/
structure Graph.SameShape (g g' : Graph) : Prop where
  modules : g'.modules = g.modules
  handlers : g'.handlers = g.handlers
  bindings : g'.bindings.map FrozenBinding.shape = g.bindings.map FrozenBinding.shape

namespace Graph.SameShape

variable {g g' : Graph} (h : g.SameShape g')
include h

theorem length : g'.bindings.length = g.bindings.length := by
  have := congrArg List.length h.bindings
  simpa using this

theorem getElem? {b' : FrozenBinding} (hi : g'.bindings[i]? = some b') :
    ∃ b, g.bindings[i]? = some b ∧ b'.shape = b.shape := by
  have hmap := congrArg (·[i]?) h.bindings
  simp only [getElem?_map, hi, Option.map_some] at hmap
  obtain ⟨b, hb, hshape⟩ := Option.map_eq_some_iff.mp hmap.symm
  exact ⟨b, hb, hshape.symm⟩

theorem symm : g'.SameShape g := ⟨h.modules.symm, h.handlers.symm, h.bindings.symm⟩

theorem trans {g'' : Graph} (h' : g'.SameShape g'') : g.SameShape g'' :=
  ⟨h'.modules.trans h.modules, h'.handlers.trans h.handlers, h'.bindings.trans h.bindings⟩

theorem binding (i : BindingId) : (g'.binding i).shape = (g.binding i).shape := by
  unfold Graph.binding
  rcases Nat.lt_or_ge i g.bindings.length with hlt | hge
  · have hlt' : i < g'.bindings.length := h.length ▸ hlt
    obtain ⟨b, hb, hshape⟩ := h.getElem? (getElem?_eq_getElem hlt')
    simp [hlt', hb, hshape]
  · have hge' : g'.bindings.length ≤ i := h.length ▸ hge
    simp [hge, hge']

theorem record (i : BindingId) : (g'.binding i).record = (g.binding i).record :=
  congrArg (·.2.2) (h.binding i)

theorem origin (i : BindingId) : (g'.binding i).origin = (g.binding i).origin :=
  congrArg (·.2.1) (h.binding i)

theorem laid (hg : g.Laid) : g'.Laid := by
  have hmem : ∀ b' ∈ g'.bindings, ∃ b ∈ g.bindings, b'.shape = b.shape := fun b' hb' => by
    obtain ⟨i, hi⟩ := mem_iff_getElem?.mp hb'
    obtain ⟨b, hb, hshape⟩ := h.getElem? hi
    exact ⟨b, mem_of_getElem? hb, hshape⟩
  refine ⟨fun i b' hi => ?_, fun i m hi => ?_, fun b' hb' => ?_, fun m hm id => ?_,
    fun h' hh' => ?_⟩
  · obtain ⟨b, hb, hshape⟩ := h.getElem? hi
    exact (congrArg Prod.fst hshape).trans (hg.ids i b hb)
  · exact hg.moduleIds i m (h.modules ▸ hi)
  · obtain ⟨b, hb, hshape⟩ := hmem b' hb'
    rw [h.modules]
    exact (congrArg (·.2.1) hshape).trans_lt (hg.origins b hb)
  · rw [hg.own m (h.modules ▸ hm)]
    constructor
    · rintro ⟨b, hb, horigin⟩
      obtain ⟨b', hb', hshape⟩ := h.symm.getElem? hb
      exact ⟨b', hb', (congrArg (·.2.1) hshape).symm.trans horigin⟩
    · rintro ⟨b', hb', horigin⟩
      obtain ⟨b, hb, hshape⟩ := h.getElem? hb'
      exact ⟨b, hb, (congrArg (·.2.1) hshape).symm.trans horigin⟩
  · obtain ⟨b, hb, horigin, hcontroller, hkind⟩ := hg.handlers h' (h.handlers ▸ hh')
    obtain ⟨b', hb', hshape⟩ := h.symm.getElem? hb
    have hrecord : b'.record = b.record := (congrArg (·.2.2) hshape).symm
    exact ⟨b', hb', (congrArg (·.2.1) hshape).symm.trans horigin, hrecord ▸ hcontroller,
      hrecord ▸ hkind⟩

end Graph.SameShape

theorem contributionsTo_congr (key : Key) {l l' : List FrozenBinding}
    (h : l'.map FrozenBinding.shape = l.map FrozenBinding.shape) :
    contributionsTo key l' = contributionsTo key l := by
  have hshape : ∀ l : List FrozenBinding, contributionsTo key l =
      ((l.map FrozenBinding.shape).filter fun s => contributesTo key s.2.2).map Prod.fst := by
    intro l
    simp [contributionsTo, filter_map, Function.comp_def, FrozenBinding.shape]
  rw [hshape, hshape, h]

/-- **The graph that freezing a registry after a base graph gives.** The roles
are those of `unmarked`, the bindings as they were laid out, after marking. -/
structure Frozen (base : Graph) (r : Registry) (load : Option ℕ) (unmarked : List FrozenBinding)
    (g : Graph) (d : Declared) : Prop where
  laid : g.Laid
  modules : base.modules <+: g.modules
  bindings : base.bindings <+: unmarked
  marked : g.bindings = unmarked.map (markRole (roleTypes g unmarked))
  visibility : g.visibility = base.visibility
  exported : g.exported = base.exported
  closures : g.closures = base.closures
  collections : ∀ key, g.collections.lookup key =
    match present (contributionsTo key (g.bindings.drop base.bindings.length)) with
    | none => base.collections.lookup key
    | some ids => some (base.collection key ++ ids)
  firstModule : d.firstModule = base.modules.length
  firstBinding : d.firstBinding = base.bindings.length
  firstHandler : d.firstHandler = base.handlers.length
  held : ∀ b ∈ g.bindings.drop base.bindings.length, ∃ i ∈ r.postOrder,
    b.record ∈ (r.node i).bindings
  exports : ∀ e ∈ d.exports, base.modules.length ≤ e.1
  loaded : ∀ m ∈ g.modules.drop base.modules.length, m.loaded = load

theorem startFreezing_layout (hbase : base.Laid) (r : Registry) (load : Option ℕ) :
    (startFreezing base r).Layout base r load where
  laid := hbase
  bindings := prefix_rfl
  modules := prefix_rfl
  rest := rfl
  first := ⟨rfl, rfl, rfl⟩
  held b hb := by simp [startFreezing] at hb
  contributions key := by simp [startFreezing, contributionsTo]
  exports e he := by simp [startFreezing] at he
  loaded m hm := by simp [startFreezing] at hm

theorem Registry.Planned.collected {r' : Registry} (h : r.Planned r') (hr : r.Collected) :
    r'.Collected :=
  ⟨h.postOrder ▸ hr.1, fun i hi => h.length ▸ hr.2 i (h.postOrder ▸ hi)⟩

/-- The state of freezing once every node is frozen. -/
def frozenState {n : ℕ} (base : Graph) (r : Registry) (load : Option ℕ)
    (plan : Option (TestPlan n)) : Freezing :=
  let planned := (applyPlan r (r.names base) plan).1
  freezeNodes planned (r.names base) load base.modules.length (startFreezing base planned)

/-- **What `freeze` answers.** -/
theorem freeze_frozen {n : ℕ} (hbase : base.Laid) (hr : r.WellFormed) (hcollected : r.Collected)
    (load : Option ℕ) (plan : Option (TestPlan n)) :
    Frozen base (applyPlan r (r.names base) plan).1 load
      (frozenState base r load plan).graph.bindings (freeze base r load plan).1
      (freeze base r load plan).2.1 := by
  have hplanned := applyPlan_planned (r := r) (r.names base) plan
  obtain ⟨hlayout, -⟩ := freezeNodes_layout
    (startFreezing_layout hbase (applyPlan r (r.names base) plan).1 load) (r.names base)
    (hplanned.marked hr.marked) (hplanned.collected hcollected) rfl
  set s := frozenState base r load plan with hs
  change s.Layout base (applyPlan r (r.names base) plan).1 load at hlayout
  set g := (freeze base r load plan).1 with hg
  have hmarked : g.bindings = s.graph.bindings.map (markRole (roleTypes g s.graph.bindings)) :=
    rfl
  have hshape : s.graph.SameShape g := ⟨rfl, rfl, by
    rw [hmarked, map_map]
    exact map_congr_left fun b _ => markRole_shape _ b⟩
  have hdrop : (g.bindings.drop base.bindings.length).map FrozenBinding.shape =
      (s.graph.bindings.drop base.bindings.length).map FrozenBinding.shape := by
    rw [map_drop, map_drop, hshape.bindings]
  refine ⟨hshape.laid hlayout.laid, hlayout.modules, hlayout.bindings,
    hmarked, congrArg (·.visibility) hlayout.rest, congrArg (·.exported) hlayout.rest,
    congrArg (·.closures) hlayout.rest, fun key => ?_,
    hlayout.first.1, hlayout.first.2.1, hlayout.first.2.2, fun b hb => ?_, hlayout.exports,
    hlayout.loaded⟩
  · have hbaseC : s.graph.collections = base.collections :=
      congrArg (·.collections) hlayout.rest
    have hmerge : g.collections = mergeContributions base.collections s.contributions := by
      rw [← hbaseC]
      rfl
    rw [hmerge, contributionsTo_congr key hdrop, ← hlayout.contributions, mergeContributions,
      AList.lookup_foldl_insert (fun old ids => old.getD [] ++ ids)]
    cases s.contributions.lookup key <;> rfl
  · have hmem : b.shape ∈ (s.graph.bindings.drop base.bindings.length).map
        FrozenBinding.shape := hdrop ▸ mem_map_of_mem hb
    obtain ⟨b', hb', hshape'⟩ := mem_map.mp hmem
    have hrecord : b'.record = b.record := congrArg (·.2.2) hshape'
    exact hrecord ▸ hlayout.held b' hb'

/-! ## What a freeze without errors says -/

/-- A key under which enhancers are contributed holds contributions alone, and
has no qualifier. `first` and `checked` leave out what an earlier wiring
settled. -/
structure RoleChecked (roles checked : List TypeId) (first : ℕ) (b : FrozenBinding) : Prop where
  collection : b.record.kind = .collection → (recordKey b.record).ty ∈ roles →
    first ≤ b.id ∨ (recordKey b.record).ty ∉ checked → (recordKey b.record).isUnqualified = true
  single : b.record.kind = .single → ∀ key ∈ b.record.keys, key.ty ∈ roles →
    ¬ (first ≤ b.id ∨ key.ty ∉ checked)

theorem roleErrors_nil {first : ℕ} {roles checked : List TypeId}
    (h : roleErrors g first roles checked b = []) : RoleChecked roles checked first b := by
  unfold roleErrors at h
  refine ⟨fun hkind hrole hnew => ?_, fun hkind key hkey hrole hnew => ?_⟩
  · simp only [hkind] at h
    by_contra hq
    simp [hq, hrole, hnew] at h
  · simp only [hkind, map_eq_nil_iff, filter_eq_nil_iff] at h
    obtain ⟨located, hlocated, rfl⟩ := mem_map.mp hkey
    exact h located hlocated (by simp [hrole, hnew])

/-- **A freeze that reports nothing of the bindings** left no failed value and
keeps role keys apart from single bindings and qualifiers. -/
theorem freeze_clean {n : ℕ} (hbase : base.Laid) (hr : r.WellFormed) (hcollected : r.Collected)
    (load : Option ℕ) (plan : Option (TestPlan n))
    (herr : (freeze base r load plan).2.2.bindings = []) :
    (∀ b ∈ (freeze base r load plan).1.bindings.drop base.bindings.length,
      b.record.recipe.isFailed = false) ∧
    ∀ b ∈ (frozenState base r load plan).graph.bindings,
      RoleChecked
        (roleTypes (freeze base r load plan).1 (frozenState base r load plan).graph.bindings)
        (roleTypes (freeze base r load plan).1
          ((frozenState base r load plan).graph.bindings.take base.bindings.length))
        base.bindings.length b := by
  have hfrozen := freeze_frozen hbase hr hcollected load plan
  have hplanned := applyPlan_planned (r := r) (r.names base) plan
  obtain ⟨hrest, hroles⟩ := append_eq_nil_iff.mp herr
  have hplan := (append_eq_nil_iff.mp (append_eq_nil_iff.mp hrest).1).2
  refine ⟨fun b hb => ?_, fun b hb => ?_⟩
  · obtain ⟨i, hi, hmem⟩ := hfrozen.held b hb
    have hlt := (hplanned.collected hcollected).2 i hi
    refine applyPlan_built hr (r.names base) plan hplan ⟨_, ?_, hmem⟩
    simp [Registry.node, hlt]
  · have hfirst : (frozenState base r load plan).declared.firstBinding = base.bindings.length :=
      hfrozen.firstBinding
    have hnil := flatMap_eq_nil_iff.mp hroles b hb
    have := roleErrors_nil hnil
    rw [← hfirst]
    exact this

/-- Nodes without controllers and inputs add no handlers and declare no inputs. -/
theorem freezeNodes_quiet (names : List ModuleName) (load : Option ℕ) (firstModule : ℕ)
    (s : Freezing)
    (hquiet : ∀ i ∈ r.postOrder, (r.node i).controllers = [] ∧ (r.node i).inputs = []) :
    (freezeNodes r names load firstModule s).graph.handlers = s.graph.handlers ∧
      (freezeNodes r names load firstModule s).graph.inputs = s.graph.inputs := by
  unfold freezeNodes
  refine foldlRecOn (motive := fun t : Freezing => t.graph.handlers = s.graph.handlers ∧
    t.graph.inputs = s.graph.inputs) _ _ ⟨rfl, rfl⟩ fun t ht ip hip => ?_
  obtain ⟨index, position⟩ := ip
  have hmem : index ∈ r.postOrder := fst_mem_of_mem_zipIdx hip
  unfold freezeStep
  split
  · rename_i hnode
    obtain ⟨hcontrollers, hinputs⟩ := hquiet index hmem
    rw [Registry.node_of_getElem? hnode] at hcontrollers hinputs
    simpa [freezeNode, hcontrollers, hinputs, freezeBindings] using ht
  · exact ht

end Ulo
