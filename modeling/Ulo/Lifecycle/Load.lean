import Ulo.Graph.Identity
import Ulo.Lifecycle.Walk

/-!
# Loading a module into a running application

`load` wires a module against the published graph, publishes the extended graph
and connects what the module brought. The graph is published before the walk,
because the constructors read through it, and where the walk fails it is put back
by hand and the singletons built so far are taken out of the store. So a load that
returns, with a module or with an error, is all or nothing.

Nothing is put back where the walk is dropped: the caller let go of the future at
one of its waits. The extended graph stays published with only some of its
singletons built, and the next load of the module is answered with it.
`load_all_or_nothing_iff` says that this is the only way.
-/

namespace Ulo

open List Prog Option AList Ensures

/-! ## The program -/

/-- **What `load` changes of an application**: the published graph, and what the
container holds. -/
structure App where
  graph : Graph
  memory : Memory

/-- Why a load failed. -/
inductive LoadError
  | closed
  | wiring (errors : List WiringError)
  | refused (refusal : LoadRefusal)
  | connect (e : ConnectError)

/-- `allows_load`. -/
def Phase.allowsLoad (p : Phase) : Bool := p.rank < Phase.stopping.rank

/-- A program of a load. -/
abbrev Loading := Prog LoadError App

/-- A program of the container in an application. -/
def onMemory {ε α : Type} (p : Prog ε Memory α) : Prog ε App α :=
  p.within App.memory fun a m => { a with memory := m }

section Load

variable (cat : Catalog) (w : World) (env : WireEnv) (m : Fin cat.size) (location : Location)

/-- A load is refused from Stopping on. -/
def checkLoads : Loading Unit := do
  let t ← onMemory now
  if (w.phase t).allowsLoad then pure () else fail .closed

/-- Waits for the loads before this one. -/
def lockLoads : Loading Unit := do
  let t ← onMemory now
  match w.ends t with
  | .dropped => drop
  | _ => pure ()

/-- What a load has found: the module was there, or it has been wired against the
graph `base`, and the extended graph is published. -/
inductive LoadFound
  | existing (id : ModuleId)
  | wired (base : Graph) (out : LazyWiring)

/-- `load`, up to its connect walk. -/
def prepareLoad : Loading LoadFound := do
  checkLoads w
  lockLoads w
  checkLoads w
  let a ← get
  match a.graph.byIdentity (cat.module m).identity with
  | some existing =>
    let errors := reloadDiffers a.graph existing (cat.module m) location
    if errors.isEmpty then pure (.existing existing) else fail (.wiring errors)
  | none =>
    match wireLazy cat a.graph m env location with
    | .error (.wiring errors) => fail (.wiring errors)
    | .error (.refused refusal) => fail (.refused refusal)
    | .ok out => do
      modify fun a => { a with graph := out.graph }
      pure (.wired a.graph out)

/-- The connect walk of a load. -/
def walkLoad (base : Graph) (out : LazyWiring) : Connecting Unit :=
  connect out.graph w out.graph.bindings.length env.timer.isSome out.singletons
    (newModules base out.graph)

/-- Puts the graph back, and takes what the load built out of the store. -/
def undoLoad (base : Graph) (out : LazyWiring) (a : App) : App where
  graph := base
  memory := { a.memory with singletons := a.memory.singletons.eraseAll out.singletons }

/-- `load`, from its connect walk on. -/
def connectLoad : LoadFound → Loading ModuleId
  | .existing id => pure id
  | .wired base out => do
    let walked ← (onMemory (walkLoad w env base out)).attempt
    match walked with
    | .ok () => pure out.module
    | .error e => do
      modify (undoLoad base out)
      fail (.connect e)

/-- **`load`.** -/
def load : Loading ModuleId := do
  let found ← prepareLoad cat w env m location
  connectLoad w env found

end Load

/-! ## All or nothing -/

/-- **Nothing**: the graph and the store are as they were. -/
structure App.Unchanged (a a' : App) : Prop where
  graph : a'.graph = a.graph
  store : ∀ id, a'.memory.singletons.lookup id = a.memory.singletons.lookup id

/-- The singletons that `a'` has more than `a`. -/
def App.brought (a a' : App) : List BindingId :=
  a'.graph.connectOrder.filter (a.graph.bindings.length ≤ ·)

/-- **All**: the graph has the module, what the load brought is in the store, and
the readiness checks and the startup hooks of it have passed since. -/
structure App.Loaded (identity : ModuleIdentity) (a a' : App) : Prop where
  held : (a'.graph.byIdentity identity).isSome = true
  built : ∀ id ∈ a.brought a', id ∈ a'.memory.singletons
  passed : ∀ e ∈ connectMarks a'.graph (a.brought a') (newModules a.graph a'.graph),
    e ∈ a'.memory.marks.drop a.memory.marks.length

/-- **The caller keeps the load** through its connect walk: no wait of the walk
ends because the caller dropped the future. -/
def KeptLoad (cat : Catalog) (w : World) (env : WireEnv) (m : Fin cat.size) (location : Location)
    (a : App) : Prop :=
  ∀ base out a', prepareLoad cat w env m location a = (.done (.wired base out), a') →
    (walkLoad w env base out a'.memory).1 ≠ .dropped

/-- **The applications there are**: connected from a wired graph, and then loaded
into any number of times, each load ending as it may. What else happens leaves the
graph and the store alone. `kept` are those of which the caller kept every load. -/
inductive App.Reachable (kept : Bool) : App → Prop
  | connect {cat : Catalog} {root : Fin cat.size} {env : WireEnv}
      {plan : Option (TestPlan cat.size)} {g : Graph} (h : wire cat root env plan = .ok g)
      {w : World} {m : Memory}
      (hrun : Ulo.connect g w g.bindings.length env.timer.isSome g.connectOrder
        (g.modules.map (·.id)) {} = (.done (), m)) : App.Reachable kept ⟨g, m⟩
  | load {a : App} (h : App.Reachable kept a) (cat : Catalog) (w : World) (env : WireEnv)
      (m : Fin cat.size) (location : Location)
      (hkept : kept = true → KeptLoad cat w env m location a) :
      App.Reachable kept (Ulo.load cat w env m location a).2
  | other {a a' : App} (h : App.Reachable kept a) (hgraph : a'.graph = a.graph)
      (hstore : a'.memory.singletons = a.memory.singletons) : App.Reachable kept a'

/-- What every such application has: a wired graph, and a store of its bindings. -/
structure App.Sound (a : App) : Prop where
  wired : a.graph.Wired
  store : ∀ id ∈ a.memory.singletons, id < a.graph.bindings.length

/-- Every singleton is in the store. -/
def App.Complete (a : App) : Prop := ∀ id ∈ a.graph.connectOrder, id ∈ a.memory.singletons

/-! ## Before the walk -/

/-- The application is as it was, but for the moment. -/
structure App.Waited (a a' : App) : Prop where
  graph : a'.graph = a.graph
  singletons : a'.memory.singletons = a.memory.singletons
  marks : a'.memory.marks = a.memory.marks

variable {a' a : App}

theorem App.Waited.unchanged (h : a.Waited a') : a.Unchanged a' :=
  ⟨h.graph, fun _ => by rw [h.singletons]⟩

/-- The exits of a load that has changed nothing. -/
def unchangedExits (a : App) : Exits LoadError App where
  failed _ := a.Unchanged
  dropped := a.Unchanged

/-- What a load has found. -/
inductive Prepared (cat : Catalog) (env : WireEnv) (m : Fin cat.size) (location : Location)
    (a : App) : LoadFound → App → Prop
  | existing {a' : App} {id : ModuleId} (hsame : a.Waited a')
      (hold : a.graph.byIdentity (cat.module m).identity = some id) :
      Prepared cat env m location a (.existing id) a'
  | wired {memory : Memory} {out : LazyWiring} (hsame : a.Waited ⟨a.graph, memory⟩)
      (hnew : a.graph.byIdentity (cat.module m).identity = none)
      (h : wireLazy cat a.graph m env location = .ok out) :
      Prepared cat env m location a (.wired a.graph out) ⟨out.graph, memory⟩

section Prepare

variable {cat : Catalog} {w : World} {env : WireEnv} {m : Fin cat.size} {location : Location}
  {a : App}

theorem now_waits (X : Exits LoadError App) :
    Ensures a.Waited (onMemory now) (fun _ => a.Waited) X :=
  fun _ h => ⟨h.graph, h.singletons, h.marks⟩

theorem checkLoads_waits :
    Ensures a.Waited (checkLoads w) (fun _ => a.Waited) (unchangedExits a) := by
  refine bind (now_waits _) fun t => ?_
  split
  · exact ret fun _ h => h
  · exact fail fun _ h => h.unchanged

theorem lockLoads_waits :
    Ensures a.Waited (lockLoads w) (fun _ => a.Waited) (unchangedExits a) := by
  refine bind (now_waits _) fun t => ?_
  split
  · exact drop fun _ h => h.unchanged
  · exact ret fun _ h => h

theorem prepareLoad_prepares :
    Ensures (· = a) (prepareLoad cat w env m location) (Prepared cat env m location a)
      (unchangedExits a) := by
  have hstart : ∀ a', a' = a → a.Waited a' := by
    rintro _ rfl
    exact ⟨rfl, rfl, rfl⟩
  refine bind (checkLoads_waits.pre hstart) fun _ => bind lockLoads_waits fun _ =>
    bind checkLoads_waits fun _ => ?_
  refine bind (Q := fun found a' => found = a' ∧ a.Waited a')
    (get fun a' h => ⟨rfl, h⟩) fun found => ?_
  refine of_pre (A := found.graph = a.graph) (fun hgraph => ?_) ?_
  · rw [hgraph]
    cases hid : a.graph.byIdentity (cat.module m).identity with
    | some existing =>
      dsimp only
      split
      · exact ret fun a' h => .existing h.2 hid
      · exact fail fun a' h => h.2.unchanged
    | none =>
      dsimp only
      cases hwired : wireLazy cat a.graph m env location with
      | error e => cases e <;> exact fail fun a' h => h.2.unchanged
      | ok out =>
        refine bind (Q := fun _ => Prepared cat env m location a (.wired a.graph out))
          (modify fun a' h => ?_) fun _ => ret fun _ h => h
        exact .wired ⟨rfl, h.2.singletons, h.2.marks⟩ hid hwired
  · rintro a' ⟨rfl, h⟩
    exact h.graph

end Prepare

/-! ## What a load can do -/

/-- **The ends of a load**: nothing has changed; all is there; or, where the
caller did not keep it, the graph is the extended one and the walk is not
finished. -/
inductive LoadEnd (cat : Catalog) (w : World) (env : WireEnv) (m : Fin cat.size)
    (location : Location) (a : App) : Prog.Outcome LoadError ModuleId → App → Prop
  | nothing {o : Prog.Outcome LoadError ModuleId} {a' : App} (hended : o ≠ .diverged)
      (hsame : a.Unchanged a') (hkept : KeptLoad cat w env m location a) :
      LoadEnd cat w env m location a o a'
  | all {out : LazyWiring} {memory : Memory}
      (hnew : a.graph.byIdentity (cat.module m).identity = none)
      (h : wireLazy cat a.graph m env location = .ok out)
      (hkept : KeptLoad cat w env m location a)
      (hwalked : Walked a.memory out.singletons
        (connectMarks out.graph out.singletons (newModules a.graph out.graph)) memory) :
      LoadEnd cat w env m location a (.done out.module) ⟨out.graph, memory⟩
  | half {out : LazyWiring} {memory : Memory}
      (hnew : a.graph.byIdentity (cat.module m).identity = none)
      (h : wireLazy cat a.graph m env location = .ok out)
      (hdropped : ¬ KeptLoad cat w env m location a)
      (hstopped : Unfinished out.graph out.singletons (newModules a.graph out.graph) a.memory
        memory) :
      LoadEnd cat w env m location a .dropped ⟨out.graph, memory⟩

section Connect

variable {w : World} {env : WireEnv} {base : Graph} {out : LazyWiring} {a : App} {memory : Memory}

/-- What `load` makes of the end of its walk. -/
def connectEnd (base : Graph) (out : LazyWiring) (a : App) :
    Prog.Outcome ConnectError Unit × Memory → Prog.Outcome LoadError ModuleId × App
  | (.done (), memory) => (.done out.module, { a with memory })
  | (.failed e, memory) => (.failed (.connect e), undoLoad base out { a with memory })
  | (.dropped, memory) => (.dropped, { a with memory })
  | (.diverged, memory) => (.diverged, { a with memory })

theorem connectLoad_eq : connectLoad w env (.wired base out) a =
    connectEnd base out a (walkLoad w env base out a.memory) := by
  change andThen _ _ _ = _
  simp only [andThen, Prog.attempt, onMemory, within]
  obtain ⟨outcome, memory⟩ := walkLoad w env base out a.memory
  cases outcome <;> rfl

end Connect

variable {out : LazyWiring} {stored : List BindingId} {memory : Memory} {marks : List Event}
  {id : BindingId} {g : Graph}

section Ends

variable {cat : Catalog} (w : World) {env : WireEnv} {m : Fin cat.size} {location : Location}
  {a : App} (ha : a.Sound)
include ha

/-- The connect walk of a load, from the memory that it starts in. -/
theorem App.Sound.walk_ends (hsame : a.Waited ⟨a.graph, memory⟩)
    (hnew : a.graph.byIdentity (cat.module m).identity = none)
    (h : wireLazy cat a.graph m env location = .ok out) :
    Ensures (· = memory) (walkLoad w env a.graph out)
      (fun _ => Walked a.memory out.singletons
        (connectMarks out.graph out.singletons (newModules a.graph out.graph)))
      (unfinishedExits out.graph out.singletons (newModules a.graph out.graph) a.memory) := by
  have hstep := wireLazy_step ha.wired hnew h
  have hsingletons : ∀ id ∈ out.singletons, id ∈ out.graph.connectOrder := fun id hid => by
    rw [hstep.order]
    exact mem_append_right _ hid
  have hmodules : ∀ id ∈ newModules a.graph out.graph, id < out.graph.modules.length := by
    intro id hid
    have hrange := mem_range'_1.mp hid
    rw [Nat.add_sub_cancel' hstep.conservative.modules.length_le] at hrange
    exact hrange.2
  refine (hstep.wired.connect_walks w le_rfl hsingletons env.timer.isSome hmodules).pre ?_
  rintro _ rfl
  exact ⟨fun id _ => by rw [hsame.singletons], fun _ hid => (nomatch hid),
    by rw [append_nil, hsame.marks]⟩

/-- A walk that failed is undone. -/
theorem App.Sound.undo_unchanged (hnew : a.graph.byIdentity (cat.module m).identity = none)
    (h : wireLazy cat a.graph m env location = .ok out)
    (hstopped : Unfinished out.graph out.singletons (newModules a.graph out.graph) a.memory
      memory) : a.Unchanged (undoLoad a.graph out ⟨out.graph, memory⟩) := by
  have hstep := wireLazy_step ha.wired hnew h
  obtain ⟨stored, marks, hstored, -, hwalked, -⟩ := hstopped
  refine ⟨rfl, fun id => ?_⟩
  change (memory.singletons.eraseAll out.singletons).lookup id = _
  rw [lookup_eraseAll]
  split
  · rename_i hid
    have hmissing : id ∉ a.memory.singletons := fun hmem =>
      absurd (ha.store id hmem) (Nat.not_lt.mpr (hstep.fresh id hid))
    exact (lookup_eq_none.mpr hmissing).symm
  · rename_i hid
    exact hwalked.store id fun hmem => hid (hstored.subset hmem)

/-- **What a load does.** -/
theorem App.Sound.loadEnd :
    LoadEnd cat w env m location a (load cat w env m location a).1
      (load cat w env m location a).2 := by
  have hprepared : Meets (Prepared cat env m location a) (unchangedExits a)
    (prepareLoad cat w env m location a) := prepareLoad_prepares a rfl
  unfold load
  cases hrun : prepareLoad cat w env m location a with
  | mk o =>
    rw [hrun] at hprepared
    -- a load that does not come to its walk is kept
    have hkept : (∀ base out, o ≠ .done (.wired base out)) →
        KeptLoad cat w env m location a := fun hnot base out a₁ h => by
      rw [hrun] at h
      exact absurd (congrArg Prod.fst h) (hnot base out)
    cases o with
    | failed =>
      rw [bind_of_exits hrun .failed]
      exact .nothing nofun hprepared (hkept fun _ _ => nofun)
    | dropped =>
      rw [bind_of_exits hrun .dropped]
      exact .nothing nofun hprepared (hkept fun _ _ => nofun)
    | diverged => exact hprepared.elim
    | done =>
      rw [bind_of_done hrun]
      cases hprepared with
      | existing hwaited =>
        exact .nothing nofun hwaited.unchanged (hkept fun _ _ => nofun)
      | @wired memory out hwaited hnew h =>
        have hwalk : Meets _ _ (walkLoad w env a.graph out memory) :=
          ha.walk_ends w hwaited hnew h memory rfl
        cases hend : walkLoad w env a.graph out memory with
        | mk o =>
          rw [hend] at hwalk
          have hstays : o ≠ .dropped → KeptLoad cat w env m location a := by
            intro hnot base out' a₁ heq
            rw [hrun] at heq
            cases heq
            rw [hend]
            exact hnot
          cases o with
          | done =>
            rw [connectLoad_eq, hend]
            exact .all hnew h (hstays nofun) hwalk
          | failed =>
            rw [connectLoad_eq, hend]
            exact .nothing nofun (ha.undo_unchanged hnew h hwalk) (hstays nofun)
          | dropped =>
            rw [connectLoad_eq, hend]
            refine .half hnew h (fun hkeeps => ?_) hwalk
            exact hkeeps _ _ _ hrun (by rw [hend])
          | diverged => exact hwalk.elim

end Ends

/-! ## The applications there are -/

theorem App.Unchanged.mem_iff (h : a.Unchanged a') :
    id ∈ a'.memory.singletons ↔ id ∈ a.memory.singletons := by
  rw [← lookup_isSome, h.store id, lookup_isSome]

theorem Walked.mem_iff {m₀ m : Memory} (h : Walked m₀ stored marks m) :
    id ∈ m.singletons ↔ id ∈ stored ∨ id ∈ m₀.singletons := by
  by_cases hid : id ∈ stored
  · exact ⟨fun _ => .inl hid, fun _ => h.built id hid⟩
  · rw [← lookup_isSome, h.store id hid, lookup_isSome, or_iff_right hid]

section Reachable

variable {cat : Catalog} {w : World} {env : WireEnv} {m : Fin cat.size} {location : Location}
  {a : App} {o : Prog.Outcome LoadError ModuleId}

/-- A walk of a load puts bindings of the extended graph in the store. -/
theorem App.Sound.walked (ha : a.Sound) (hnew : a.graph.byIdentity (cat.module m).identity = none)
    (h : wireLazy cat a.graph m env location = .ok out) (hstored : stored ⊆ out.singletons)
    (hwalked : Walked a.memory stored marks memory) : App.Sound ⟨out.graph, memory⟩ := by
  have hstep := wireLazy_step ha.wired hnew h
  refine ⟨hstep.wired, fun id hid => ?_⟩
  rcases hwalked.mem_iff.mp hid with hid | hid
  · have hmem : id ∈ out.graph.connectOrder := by
      rw [hstep.order]
      exact mem_append_right _ (hstored hid)
    exact (hstep.wired.mem_connectOrder.mp hmem).1
  · exact (ha.store id hid).trans_le hstep.conservative.bindings.length_le

theorem LoadEnd.sound (ha : a.Sound) (h : LoadEnd cat w env m location a o a') : a'.Sound := by
  cases h with
  | nothing _ hsame _ =>
    refine ⟨hsame.graph ▸ ha.wired, fun id hid => ?_⟩
    rw [hsame.graph]
    exact ha.store id (hsame.mem_iff.mp hid)
  | all hnew h _ hwalked => exact ha.walked hnew h (List.Subset.refl _) hwalked
  | half hnew h _ hstopped =>
    obtain ⟨stored, marks, hstored, -, hwalked, -⟩ := hstopped
    exact ha.walked hnew h hstored.subset hwalked

theorem LoadEnd.complete (ha : a.Sound) (hcomplete : a.Complete)
    (h : LoadEnd cat w env m location a o a') (hkept : KeptLoad cat w env m location a) :
    a'.Complete := by
  cases h with
  | nothing _ hsame =>
    intro id hid
    rw [hsame.graph] at hid
    exact hsame.mem_iff.mpr (hcomplete id hid)
  | all hnew h _ hwalked =>
    intro id hid
    rw [(wireLazy_step ha.wired hnew h).order] at hid
    refine hwalked.mem_iff.mpr ((mem_append.mp hid).elim (fun hid => ?_) .inl)
    exact .inr (hcomplete id hid)
  | half _ _ hdropped => exact absurd hkept hdropped

/-- What connecting an application leaves in the store. -/
theorem Graph.Wired.connect_store (hg : g.Wired) {timed : Bool}
    (hrun : Ulo.connect g w g.bindings.length timed g.connectOrder (g.modules.map (·.id)) {} =
      (.done (), memory)) : ∀ id, id ∈ memory.singletons ↔ id ∈ g.connectOrder := by
  have hmodules : ∀ id ∈ g.modules.map (·.id), id < g.modules.length := by
    intro id hid
    obtain ⟨m, hm, rfl⟩ := mem_map.mp hid
    exact hg.laid.module_lt hm
  have hstart : Walked {} [] [] {} := ⟨fun _ _ => rfl, fun _ h => (nomatch h), rfl⟩
  have hwalked := hg.connect_walks w le_rfl (fun _ hid => hid) timed hmodules {} hstart
  rw [hrun] at hwalked
  intro id
  rw [Walked.mem_iff hwalked, or_iff_left (notMem_empty id)]

theorem App.Reachable.sound {kept : Bool} (h : a.Reachable kept) : a.Sound := by
  induction h with
  | connect h hrun =>
    have hg := wire_wired h
    exact ⟨hg, fun id hid => (hg.mem_connectOrder.mp ((hg.connect_store hrun id).mp hid)).1⟩
  | load _ cat w env m location _ ih => exact (ih.loadEnd w).sound ih
  | other _ hgraph hstore ih =>
    refine ⟨hgraph ▸ ih.wired, fun id hid => ?_⟩
    rw [hgraph]
    exact ih.store id (hstore ▸ hid)

/-- **Where every load was kept**, every singleton of the graph is built. -/
theorem App.Reachable.complete (h : a.Reachable true) : a.Complete := by
  generalize hkept : true = kept at h
  induction h with
  | connect h hrun => exact fun id hid => ((wire_wired h).connect_store hrun id).mpr hid
  | load h cat w env m location hkeeps ih =>
    exact (h.sound.loadEnd w).complete h.sound ih (hkeeps hkept.symm)
  | other _ hgraph hstore ih =>
    intro id hid
    rw [hstore]
    exact ih id (hgraph ▸ hid)

end Reachable

/-! ## The caller's drop -/

variable {singletons : List BindingId} {modules : List ModuleId}

theorem readyMarks_nodup (g : Graph) (h : singletons.Nodup) :
    (singletons.flatMap (readyMarks g)).Nodup := by
  refine nodup_flatMap.mpr ⟨fun id _ => ?_, h.imp fun {id id'} hne e he he' => ?_⟩
  · unfold readyMarks
    cases (g.binding id).record.ready with
    | none => exact nodup_nil
    | some => exact nodup_singleton _
  · simp only [readyMarks, mem_toList, map_eq_some_iff] at he he'
    obtain ⟨_, -, rfl⟩ := he
    obtain ⟨_, -, heq⟩ := he'
    exact hne (Event.ready.inj heq).symm

theorem mem_hookMarks {kind : HookKind} {e : Event} (h : e ∈ hookMarks g kind singletons modules) :
    ∃ owner position, e = .hook owner position ∧ HookAt g kind owner position := by
  obtain ⟨⟨owner, position⟩, hmem, rfl⟩ := mem_map.mp h
  exact ⟨owner, position, rfl, (mem_startupWalk.mp hmem).2⟩

/-- **A walk makes each of its marks once.** -/
theorem connectMarks_nodup (hsingletons : singletons.Nodup) (hmodules : modules.Nodup) :
    (connectMarks g singletons modules).Nodup := by
  have hhooks : ∀ kind, (hookMarks g kind singletons modules).Nodup := fun kind =>
    (startupWalk_nodup hsingletons hmodules).map fun p p' heq => by
      obtain ⟨h₁, h₂⟩ := Event.hook.inj heq
      exact Prod.ext h₁ h₂
  unfold connectMarks
  refine nodup_append.mpr ⟨nodup_append.mpr ⟨readyMarks_nodup g hsingletons,
    hhooks _, ?_⟩, hhooks _, ?_⟩
  · -- a check is no hook
    intro e he e' he' heq
    obtain ⟨id, -, hready⟩ := mem_flatMap.mp he
    obtain ⟨owner, position, rfl, -⟩ := mem_hookMarks he'
    simp [readyMarks, heq] at hready
  · intro e he e' he' heq
    obtain ⟨owner, position, rfl, hat⟩ := mem_hookMarks he'
    rcases mem_append.mp he with he | he
    · obtain ⟨id, -, hready⟩ := mem_flatMap.mp he
      simp [readyMarks, heq] at hready
    · -- a hook has one kind
      obtain ⟨owner', position', hsame, hat'⟩ := mem_hookMarks he
      obtain ⟨rfl, rfl⟩ := Event.hook.inj (hsame.symm.trans heq)
      obtain ⟨hook, hget, hkind⟩ := hat
      obtain ⟨hook', hget', hkind'⟩ := hat'
      rw [hget] at hget'
      rw [some.inj hget', hkind'] at hkind
      cases hkind

/-- A shorter beginning of a list without repetitions misses one of its items. -/
theorem exists_not_mem_of_prefix {α : Type} {pre l : List α} (hpre : pre <+: l) (hl : l.Nodup)
    (hlt : pre.length < l.length) : ∃ x ∈ l, x ∉ pre := by
  obtain ⟨rest, rfl⟩ := hpre
  cases rest with
  | nil => simp at hlt
  | cons x =>
    refine ⟨x, by simp, fun hmem => ?_⟩
    exact (nodup_append.mp hl).2.2 x hmem x mem_cons_self rfl

section AllOrNothing

variable {cat : Catalog} {w : World} {env : WireEnv} {m : Fin cat.size} {location : Location}
  {a : App} {o : Prog.Outcome LoadError ModuleId}

theorem LoadStep.brought (h : LoadStep a.graph out) (memory : Memory) :
    a.brought ⟨out.graph, memory⟩ = out.singletons := by
  change out.graph.connectOrder.filter _ = _
  have hold : a.graph.connectOrder.filter (a.graph.bindings.length ≤ ·) = [] :=
    filter_eq_nil_iff.mpr fun id hid => by
      simpa using (h.before.mem_connectOrder.mp hid).1
  have hnew : out.singletons.filter (a.graph.bindings.length ≤ ·) = out.singletons :=
    filter_eq_self.mpr fun id hid => by simpa using h.fresh id hid
  rw [h.order, filter_append, hold, hnew, nil_append]

theorem LoadEnd.ne_diverged (h : LoadEnd cat w env m location a o a') : o ≠ .diverged := by
  cases h with
  | nothing hended => exact hended
  | all | half => exact nofun

theorem LoadEnd.kept_of_done (h : LoadEnd cat w env m location a o a') {id : ModuleId}
    (hdone : o = .done id) : KeptLoad cat w env m location a := by
  cases h with
  | nothing _ _ hkept | all _ _ hkept => exact hkept
  | half => cases hdone

/-- **A load is all or nothing exactly when its caller keeps it.** -/
theorem LoadEnd.iff_kept (ha : a.Sound) (h : LoadEnd cat w env m location a o a') :
    (a.Unchanged a' ∨ a.Loaded (cat.module m).identity a') ↔ KeptLoad cat w env m location a := by
  cases h with
  | nothing _ hsame hkept => exact ⟨fun _ => hkept, fun _ => .inl hsame⟩
  | @all out memory hnew h hkept hwalked =>
    have hstep := wireLazy_step ha.wired hnew h
    have hbrought := hstep.brought memory
    refine ⟨fun _ => hkept, fun _ => .inr ⟨?_, ?_, ?_⟩⟩
    · rw [wireLazy_byIdentity hnew h]
      rfl
    · rw [hbrought]
      exact hwalked.built
    · rw [hbrought, hwalked.marks, drop_left]
      exact fun _ he => he
  | @half out memory hnew h hdropped hstopped =>
    have hstep := wireLazy_step ha.wired hnew h
    have hbrought := hstep.brought memory
    have hnodup : out.singletons.Nodup := by
      have hall := hstep.wired.connectOrder_nodup
      rw [hstep.order] at hall
      exact (nodup_append.mp hall).2.1
    refine iff_of_false ?_ hdropped
    rintro (hsame | hloaded)
    · -- the graph has the module now, and had it not before
      have hheld := wireLazy_byIdentity hnew h
      rw [show out.graph = a.graph from hsame.graph, hnew] at hheld
      cases hheld
    · obtain ⟨stored, marks, hstored, hmarks, hwalked, hless | hless⟩ := hstopped
      · -- a singleton is missing
        obtain ⟨id, hid, hmissing⟩ := exists_not_mem_of_prefix hstored hnodup hless
        have hbuilt := hloaded.built id (hbrought ▸ hid)
        refine absurd ((hwalked.mem_iff.mp hbuilt).resolve_left hmissing) fun hmem => ?_
        exact absurd (ha.store id hmem) (Nat.not_lt.mpr (hstep.fresh id hid))
      · -- a check or a hook has not passed
        obtain ⟨e, he, hmissing⟩ := exists_not_mem_of_prefix hmarks
          (connectMarks_nodup hnodup nodup_range') hless
        have hpassed := hloaded.passed e (by rw [hbrought]; exact he)
        rw [hwalked.marks, drop_left] at hpassed
        exact hmissing hpassed

/-- **A load is all or nothing exactly when its caller keeps it** through the
connect walk, whatever the application and the module are. And while every load is
kept, a load that answers a module leaves no singleton unbuilt. -/
theorem load_all_or_nothing_iff {kept : Bool} (ha : a.Reachable kept) :
    ((load cat w env m location a).1 ≠ .diverged) ∧
    ((a.Unchanged (load cat w env m location a).2 ∨
        a.Loaded (cat.module m).identity (load cat w env m location a).2) ↔
      KeptLoad cat w env m location a) ∧
    (kept = true → ∀ id, (load cat w env m location a).1 = .done id →
      (load cat w env m location a).2.Complete) := by
  have hend : LoadEnd cat w env m location a _ _ := ha.sound.loadEnd w
  refine ⟨hend.ne_diverged, hend.iff_kept ha.sound, ?_⟩
  rintro rfl id hdone
  exact hend.complete ha.sound ha.complete (hend.kept_of_done hdone)

end AllOrNothing

/-! ## The sample, loaded into -/

/-- The connect walk of the sample's root. -/
def hookedWalk : Connecting Unit :=
  connect hookedBase calm hookedBase.bindings.length ({} : WireEnv).timer.isSome
    hookedBase.connectOrder (hookedBase.modules.map (·.id))

/-- The root of the sample, connected. -/
def hookedApp : App := ⟨hookedBase, (hookedWalk {}).2⟩

theorem hookedApp_reachable (kept : Bool) : hookedApp.Reachable kept := by
  have hdone : (hookedWalk {}).1 = .done () := by decide +kernel
  exact .connect hookedBase_eq (run_eq hdone)

/-- A world in which all code does its work, until a moment from which every wait
is dropped. -/
def droppedFrom (moment : ℕ) : World :=
  { calm with ends := fun t => if t < moment then .done else .dropped }

/-- The sample's other module, loaded in a world. -/
def hookedLoading (w : World) : Loading ModuleId := load hookedSample w {} hookedFeature 0

/-- A load that is kept: all is there. -/
theorem load_all_or_nothing_calm :
    (hookedLoading calm hookedApp).1.value = some 1 ∧
      (hookedApp.Unchanged (hookedLoading calm hookedApp).2 ∨
        hookedApp.Loaded { ty := 101 } (hookedLoading calm hookedApp).2) := by
  have hdone : (hookedLoading calm hookedApp).1.value = some 1 := by decide +kernel
  have hkept : KeptLoad hookedSample calm {} hookedFeature 0 hookedApp :=
    ((hookedApp_reachable true).sound.loadEnd calm).kept_of_done (Outcome.value_eq.mp hdone)
  exact ⟨hdone, (load_all_or_nothing_iff (hookedApp_reachable true)).2.1.mpr hkept⟩

/-- **A dropped load is half there.** The walk built one of the two singletons of
the module when the caller let go of it; the next load of the module answers it,
with the other one missing. -/
theorem dropped_load_answered :
    hookedApp.Reachable true ∧
      (hookedLoading (droppedFrom 12) hookedApp).1.isDropped = true ∧
      (hookedLoading calm (hookedLoading (droppedFrom 12) hookedApp).2).1.value = some 1 ∧
      (hookedLoading calm (hookedLoading (droppedFrom 12) hookedApp).2).2.graph.connectOrder =
        [0, 1, 2, 3] ∧
      (hookedLoading calm (hookedLoading (droppedFrom 12) hookedApp).2).2.memory.singletons.keys =
        [2, 1, 0] := by
  refine ⟨hookedApp_reachable true, ?_, ?_, ?_, ?_⟩ <;> decide +kernel

end Ulo
