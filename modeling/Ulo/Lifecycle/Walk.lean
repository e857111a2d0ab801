import Ulo.Lifecycle.Hooks
import Ulo.Lifecycle.Startup
import Ulo.Resolver.Kinds

/-!
# What connecting leaves behind

`connect` puts one singleton after another in the store and makes a **mark** for
each readiness check and each startup hook that passed. `Walked` is how far a walk
has come: the singletons stored so far and the marks made so far, everything else
in the store being as it was. A walk that returns has stored all its singletons and
made all the marks it has to (`connectMarks`); one that fails or is dropped has
stopped strictly before that (`Unfinished`).
-/

namespace Ulo

open List Prog AList Ensures

/-- **How far a walk has come** from the memory `m₀`. -/
structure Walked (m₀ : Memory) (stored : List BindingId) (marks : List Event) (m : Memory) :
    Prop where
  store : ∀ id ∉ stored, m.singletons.lookup id = m₀.singletons.lookup id
  built : ∀ id ∈ stored, id ∈ m.singletons
  marks : m.marks = m₀.marks ++ marks

/-- The mark of a readiness check, for a singleton that has one. -/
def readyMarks (g : Graph) (id : BindingId) : List Event :=
  ((g.binding id).record.ready.map fun _ => Event.ready id).toList

/-- The marks of the hooks of one kind. -/
def hookMarks (g : Graph) (kind : HookKind) (singletons : List BindingId)
    (modules : List ModuleId) : List Event :=
  (startupWalk g kind singletons modules).map fun p => .hook p.1 p.2

/-- **The marks of a walk that returned.** -/
def connectMarks (g : Graph) (singletons : List BindingId) (modules : List ModuleId) :
    List Event :=
  singletons.flatMap (readyMarks g) ++ hookMarks g .onModuleInit singletons modules ++
    hookMarks g .onApplicationBootstrap singletons modules

/-- **A walk that stopped early.** -/
def Unfinished (g : Graph) (singletons : List BindingId) (modules : List ModuleId) (m₀ m : Memory) :
    Prop :=
  ∃ stored marks, stored <+: singletons ∧ marks <+: connectMarks g singletons modules ∧
    Walked m₀ stored marks m ∧ (stored.length < singletons.length ∨
      marks.length < (connectMarks g singletons modules).length)

/-- Reads leave a walk where it is. -/
def walkPromise (m₀ : Memory) (stored : List BindingId) (marks : List Event) : Promise where
  bad _ := False
  inv := Walked m₀ stored marks
  stable _ _ hstore hmarks h :=
    ⟨fun id hid => hstore ▸ h.store id hid, fun id hid => hstore ▸ h.built id hid, hmarks ▸ h.marks⟩

variable {id : BindingId}

section Walk

variable {m₀ m : Memory} {stored : List BindingId} {marks : List Event}

theorem walkPromise_holds : (walkPromise m₀ stored marks).Holds m ↔ Walked m₀ stored marks m :=
  ⟨fun h => h.inv, fun h => ⟨h, .inr fun e _ => by
    unfold Promise.Kept
    split
    · exact False.elim
    · trivial⟩⟩

theorem walkPromise_ofKinds (g : Graph) (m₀ : Memory) (stored : List BindingId)
    (marks : List Event) : (walkPromise m₀ stored marks).OfKinds g :=
  ⟨fun _ h => h.elim, fun _ _ _ => .inr fun _ _ _ h => h⟩

section

variable (h : Walked m₀ stored marks m)
include h

/-- A singleton is stored. -/
theorem Walked.store_next (id : BindingId) (i : Instance) :
    Walked m₀ (stored ++ [id]) marks { m with singletons := m.singletons.insert id i } := by
  refine ⟨fun id' hid' => ?_, fun id' hid' => ?_, h.marks⟩
  · rw [mem_append, mem_singleton, not_or] at hid'
    rw [lookup_insert_ne hid'.2]
    exact h.store id' hid'.1
  · refine (mem_insert _).mpr ?_
    rcases mem_snoc.mp hid' with hid' | hid'
    · exact .inr (h.built id' hid')
    · exact .inl hid'

/-- A singleton was there already. -/
theorem Walked.there (hid : id ∈ m.singletons) : Walked m₀ (stored ++ [id]) marks m := by
  refine ⟨fun id' hid' => h.store id' fun hmem => hid' (mem_append_left _ hmem),
    fun id' hid' => ?_, h.marks⟩
  rcases mem_snoc.mp hid' with hid' | hid'
  · exact h.built id' hid'
  · rwa [hid']

/-- A check or a hook has passed. -/
theorem Walked.mark {e : Event} (he : e.isRead = false) :
    Walked m₀ stored (marks ++ [e]) { m with events := m.events ++ [e] } := by
  refine ⟨h.store, h.built, ?_⟩
  have hmarks : Memory.marks { m with events := m.events ++ [e] } = m.marks ++ [e] := by
    simp [Memory.marks, he]
  rw [hmarks, h.marks, append_assoc]

end

end Walk

/-! ## The steps of a walk -/

section Steps

variable {g : Graph} (hg : g.Wired) (w : World) {fuel : ℕ} (hfuel : g.bindings.length ≤ fuel)
  {m₀ : Memory} {stored : List BindingId} {marks : List Event} {X : Exits ConnectError Memory}

/-- What a step may leave where it stops: a walk that is where it was. -/
def StopsAt (X : Exits ConnectError Memory) (m₀ : Memory) (stored : List BindingId)
    (marks : List Event) : Prop :=
  ∀ m, Walked m₀ stored marks m → X.dropped m ∧ ∀ e, X.failed e m

include hg hfuel

/-- What is obtained for a walk leaves it where it is. -/
theorem Graph.Wired.obtain_walks (r : Resolver) (id : BindingId) (hexec : r.exec = none)
    (hid : id < g.bindings.length) :
    Harmless (walkPromise m₀ stored marks) (obtain g w fuel r id) :=
  (hg.kind_closed none (walkPromise_ofKinds ..)).obtain hg hfuel hexec hid

/-- Code of the graph with declared reads leaves a walk where it is. -/
theorem Graph.Wired.runCode_walks {r : Resolver} {d : Dependencies} (hexec : r.exec = none)
    (hreads : ∀ read ∈ d.reads, g.Declares r.module read) (hX : StopsAt X m₀ stored marks) :
    Ensures (Walked m₀ stored marks)
      (runCode g w (obtain g w fuel) r d : Connecting Ulo.Outcome)
      (fun _ => Walked m₀ stored marks) X := by
  have hkinds := walkPromise_ofKinds g m₀ stored marks
  have hclosed := hg.kind_closed none hkinds
  have hrun := hclosed.runCode (w := w) (X := X) (d := d) (hg.obtain_walks w hfuel) hexec
    (fun read hread => hg.kind_fine none hkinds (hg.resolves (hreads read hread)))
    fun m hm => (hX m (walkPromise_holds.mp hm)).1
  exact (hrun.pre fun m hm => walkPromise_holds.mpr hm).post fun _ m hm => walkPromise_holds.mp hm.2

/-- **A missing singleton is built.** -/
theorem Graph.Wired.buildMissing_walks (hid : id ∈ g.connectOrder)
    (hX : StopsAt X m₀ stored marks) : Ensures (Walked m₀ stored marks) (buildMissing g w fuel id)
      (fun _ => Walked m₀ (stored ++ [id]) marks) X := by
  obtain ⟨hlt, hsingleton⟩ := hg.mem_connectOrder.mp hid
  have heff : (g.binding id).effective = .singleton := by simpa [isSingleton] using hsingleton
  have hrun := hg.runCode_walks w hfuel (r := { module := (g.binding id).origin })
    (d := (g.binding id).record.dependencies) rfl
    (fun read hread => .binding id hlt hread) hX
  have hfail : ∀ e : ConnectError, Ensures (Walked m₀ stored marks) (fail e : Connecting Unit)
      (fun _ => Walked m₀ (stored ++ [id]) marks) X :=
    fun e => fail fun m hm => (hX m hm).2 e
  unfold buildMissing
  refine bind (Q := fun found m => found = m ∧ Walked m₀ stored marks m)
    (get fun m hm => ⟨rfl, hm⟩) fun found => ?_
  split
  · rename_i hthere
    refine ret ?_
    rintro m ⟨rfl, hm⟩
    exact hm.there (lookup_isSome.mp (by rw [hthere]; rfl))
  · refine pre (P := Walked m₀ stored marks) ?_ fun m hm => hm.2
    unfold Ulo.buildSingleton
    split
    · exact modify fun m hm => hm.store_next id _
    · rename_i hrecipe
      rw [hg.effective_of_alias hlt hrecipe] at heff
      cases heff
    · rename_i hrecipe
      have hfailed := hg.built _ (binding_mem hlt)
      rw [hrecipe] at hfailed
      cases hfailed
    all_goals
      refine bind hrun fun outcome => ?_
      cases outcome with
      | done => exact modify fun m hm => hm.store_next id _
      | _ => exact hfail _

/-- **Its readiness check passes**, where it has one. -/
theorem Graph.Wired.checkReady_walks (timed : Bool) (hid : id < g.bindings.length)
    (hX : readyMarks g id ≠ [] → StopsAt X m₀ stored marks) :
    Ensures (Walked m₀ stored marks) (Ulo.checkReady g w fuel timed id)
      (fun _ => Walked m₀ stored (marks ++ readyMarks g id)) X := by
  unfold Ulo.checkReady
  unfold readyMarks at hX ⊢
  cases hready : (g.binding id).record.ready with
  | none =>
    refine ret fun m hm => ?_
    rwa [Option.map_none, Option.toList_none, append_nil]
  | some ready =>
    have hstops := hX (by simp [hready])
    have hkinds := walkPromise_ofKinds g m₀ stored marks
    have hclosed := hg.kind_closed none hkinds
    have hpassed : ∀ m, (walkPromise m₀ stored marks).Holds m →
        Walked m₀ stored (marks ++ [.ready id]) { m with events := m.events ++ [.ready id] } :=
      fun m hm => (walkPromise_holds.mp hm).mark rfl
    refine (runReadiness_holds hclosed (hg.obtain_walks w hfuel) hpassed fun read hread => ?_).mono
      (fun m hm => walkPromise_holds.mpr hm) (fun _ m hm => hm)
      (fun e m he => (hstops m (walkPromise_holds.mp he.2)).2 e)
      fun m hm => (hstops m (walkPromise_holds.mp hm)).1
    exact hg.kind_fine none hkinds (hg.resolves (.ready id hid hready hread))

/-- **A startup hook passes.** -/
theorem Graph.Wired.startupHook_walks {owner : HookOwner} {hook : HookRecord} {position : ℕ}
    (howner : g.Owns owner) (hhook : hook ∈ hooksOf g owner)
    (hstored : ∀ id, owner = .binding id → id ∈ stored) (hX : StopsAt X m₀ stored marks) :
    Ensures (Walked m₀ stored marks) (startupHook g w fuel owner hook position)
      (fun _ => Walked m₀ stored (marks ++ [.hook owner position])) X := by
  -- the hook's code runs, because a singleton it belongs to is there
  have hrun : Ensures (Walked m₀ stored marks) (runHook g w fuel owner hook)
      (fun outcome m => outcome ≠ none ∧ Walked m₀ stored marks m) X := by
    unfold runHook
    refine bind (Q := fun found m => found = m ∧ Walked m₀ stored marks m)
      (get fun m hm => ⟨rfl, hm⟩) fun found => ?_
    cases owner with
    | binding id =>
      have hcode := hg.runCode_walks w hfuel
        (r := { module := (g.binding id).origin, purpose := .lifecycle }) (d := hook.dependencies)
        rfl (fun read hread => .hook id (hg.mem_connectOrder.mp howner).1 hhook hread) hX
      dsimp only
      split
      · rename_i hmissing
        refine ret ?_
        rintro m ⟨rfl, hm⟩
        have hthere := lookup_isSome.mpr (hm.built id (hstored id rfl))
        rw [hmissing] at hthere
        cases hthere
      · exact bind (hcode.pre fun m hm => hm.2) fun outcome =>
          ret fun m hm => ⟨Option.some_ne_none _, hm⟩
    | module id =>
      have hid : (g.module id).id = id := hg.laid.moduleIds id _ (getElem?_module howner)
      have hcode := hg.runCode_walks w hfuel (r := { module := id, purpose := .lifecycle })
        (d := hook.dependencies) rfl (fun read hread => by
          have hdeclares := Graph.Declares.moduleHook (mem_modules howner) hhook hread
          rwa [hid] at hdeclares) hX
      exact bind (hcode.pre fun m hm => hm.2) fun outcome =>
        ret fun m hm => ⟨Option.some_ne_none _, hm⟩
  unfold startupHook
  refine bind hrun fun outcome => ?_
  cases outcome with
  | none => exact ret fun m hm => absurd rfl hm.1
  | some outcome =>
    cases outcome with
    | done => exact modify fun m hm => hm.2.mark rfl
    | _ => exact fail fun m hm => (hX m hm.2).2 _

end Steps

/-! ## The walk -/

/-- The exits of a walk that has not finished. -/
def unfinishedExits (g : Graph) (singletons : List BindingId) (modules : List ModuleId)
    (m₀ : Memory) : Exits ConnectError Memory where
  failed _ := Unfinished g singletons modules m₀
  dropped := Unfinished g singletons modules m₀

theorem hookMarks_eq (g : Graph) (kind : HookKind) (singletons : List BindingId)
    (modules : List ModuleId) :
    hookMarks g kind singletons modules = (hookPlan g singletons modules).flatMap fun owner =>
      (hooksOfKind g kind owner).map fun h => .hook owner h.2 := by
  unfold hookMarks startupWalk
  rw [map_flatMap]
  refine flatMap_congr fun owner _ => ?_
  rw [map_map]
  rfl

section Runs

variable {g : Graph} (hg : g.Wired) (w : World) {fuel : ℕ} (hfuel : g.bindings.length ≤ fuel)
  {m₀ : Memory} {singletons : List BindingId} {modules : List ModuleId}
  (hsingletons : ∀ id ∈ singletons, id ∈ g.connectOrder)
  {X : Exits ConnectError Memory}

include hg hfuel hsingletons

/-- **The singletons are built and checked in order.** -/
theorem Graph.Wired.connectSingletons_walks (timed : Bool)
    (hbuild : ∀ pre id post, singletons = pre ++ id :: post →
      StopsAt X m₀ pre (pre.flatMap (readyMarks g)))
    (hcheck : ∀ pre id post, singletons = pre ++ id :: post → readyMarks g id ≠ [] →
      StopsAt X m₀ (pre ++ [id]) (pre.flatMap (readyMarks g))) :
    Ensures (Walked m₀ [] []) (Ulo.connectSingletons g w fuel timed singletons)
      (fun _ => Walked m₀ singletons (singletons.flatMap (readyMarks g))) X := by
  refine bind (each singletons
    (fun pre => Walked m₀ pre (pre.flatMap (readyMarks g))) fun pre id post hsplit => ?_) fun _ =>
      ret fun _ hm => hm
  have hid : id ∈ g.connectOrder := hsingletons id (by simp [hsplit])
  refine bind (hg.buildMissing_walks w hfuel hid (hbuild pre id post hsplit)) fun _ => ?_
  rw [flatMap_append, flatMap_singleton]
  exact hg.checkReady_walks w hfuel timed (hg.mem_connectOrder.mp hid).1 (hcheck pre id post hsplit)

/-- **The hooks of a kind run in the order of the plan.** -/
theorem Graph.Wired.runStartupHooks_walks (kind : HookKind)
    (hmodules : ∀ id ∈ modules, id < g.modules.length) {marks : List Event}
    (hX : ∀ pre, pre <+: hookMarks g kind singletons modules →
      pre.length < (hookMarks g kind singletons modules).length →
        StopsAt X m₀ singletons (marks ++ pre)) :
    Ensures (Walked m₀ singletons marks) (runStartupHooks g w fuel kind singletons modules)
      (fun _ => Walked m₀ singletons (marks ++ hookMarks g kind singletons modules)) X := by
  rw [hookMarks_eq] at hX ⊢
  -- the marks of an owner, and of the owners behind the walk
  let own : HookOwner → List Event := fun owner =>
    (hooksOfKind g kind owner).map fun h => .hook owner h.2
  have hwalk : Ensures (Walked m₀ singletons (marks ++ [])) (each (fun owner =>
      each (fun h => startupHook g w fuel owner h.1 h.2) (hooksOfKind g kind owner))
        (hookPlan g singletons modules))
      (fun _ => Walked m₀ singletons (marks ++ (hookPlan g singletons modules).flatMap own)) X := by
    refine each _ (fun pre => Walked m₀ singletons (marks ++ pre.flatMap own))
      fun pre owner post hsplit => ?_
    have hmem : owner ∈ hookPlan g singletons modules := by simp [hsplit]
    have howner : g.Owns owner ∧ ∀ id, owner = .binding id → id ∈ singletons := by
      rcases mem_hookPlan.mp hmem with ⟨id, hid, rfl⟩ | ⟨id, hid, rfl⟩
      · exact ⟨hsingletons id hid, fun _ heq => HookOwner.binding.inj heq ▸ hid⟩
      · exact ⟨hmodules id hid, fun _ heq => (nomatch heq)⟩
    have hhooks := each (X := X) (f := fun h => startupHook g w fuel owner h.1 h.2)
      (hooksOfKind g kind owner) (fun done => Walked m₀ singletons
        (marks ++ pre.flatMap own ++ done.map fun h => .hook owner h.2))
      fun done h rest hrest => ?_
    · rw [flatMap_append, flatMap_singleton, ← append_assoc]
      exact hhooks.pre fun m hm => by rwa [map_nil, append_nil]
    · rw [map_append, map_singleton, ← append_assoc, append_assoc marks]
      refine hg.startupHook_walks w hfuel howner.1 ?_ howner.2 ?_
      · exact fst_mem_of_mem_zipIdx (mem_of_mem_filter (hrest ▸ by simp :
          h ∈ hooksOfKind g kind owner))
      · -- the marks so far, and those still to come
        have hall : (hookPlan g singletons modules).flatMap own =
            (pre.flatMap own ++ done.map fun h => .hook owner h.2) ++
              (.hook owner h.2 :: (rest.map fun h => .hook owner h.2) ++ post.flatMap own) := by
          rw [hsplit, flatMap_append, flatMap_cons]
          simp only [own, hrest, map_append, map_cons, append_assoc,
            cons_append]
        refine hX _ ⟨_, hall.symm⟩ ?_
        rw [show ((hookPlan g singletons modules).flatMap fun owner =>
          (hooksOfKind g kind owner).map fun h => Event.hook owner h.2) = _ from hall]
        simp
  exact bind (hwalk.pre fun m hm => by rwa [append_nil]) fun _ =>
    ret fun _ hm => hm

/-- **What `connect` leaves behind**: all of it where it returns, and strictly
less where it does not. -/
theorem Graph.Wired.connect_walks (timed : Bool)
    (hmodules : ∀ id ∈ modules, id < g.modules.length) :
    Ensures (Walked m₀ [] []) (connect g w fuel timed singletons modules)
      (fun _ => Walked m₀ singletons (connectMarks g singletons modules))
      (unfinishedExits g singletons modules m₀) := by
  have hstop : ∀ stored marks, stored <+: singletons →
      marks <+: connectMarks g singletons modules → (stored.length < singletons.length ∨
        marks.length < (connectMarks g singletons modules).length) →
      StopsAt (unfinishedExits g singletons modules m₀) m₀ stored marks :=
    fun stored marks hstored hmarks hless m hm =>
      ⟨⟨stored, marks, hstored, hmarks, hm, hless⟩, fun _ =>
        ⟨stored, marks, hstored, hmarks, hm, hless⟩⟩
  have hready : ∀ pre post, singletons = pre ++ post →
      pre.flatMap (readyMarks g) <+: connectMarks g singletons modules := by
    intro pre post hsplit
    unfold connectMarks
    rw [hsplit, flatMap_append, append_assoc, append_assoc]
    exact prefix_append _ _
  refine bind (hg.connectSingletons_walks w hfuel hsingletons timed ?_ ?_) fun _ =>
    bind (hg.runStartupHooks_walks w hfuel hsingletons .onModuleInit hmodules ?_) fun _ =>
      hg.runStartupHooks_walks w hfuel hsingletons .onApplicationBootstrap hmodules ?_
  · intro pre id post hsplit
    exact hstop _ _ (hsplit ▸ prefix_append _ _) (hready _ _ hsplit) (.inl (by simp [hsplit]))
  · intro pre id post hsplit hchecked
    have hsplit' : singletons = (pre ++ [id]) ++ post := by simp [hsplit]
    refine hstop _ _ (hsplit' ▸ prefix_append _ _) (hready _ _ hsplit) (.inr ?_)
    have hmore := (hready _ _ hsplit').length_le
    have hpos := length_pos_of_ne_nil hchecked
    rw [flatMap_append, flatMap_singleton, length_append] at hmore
    omega
  · intro pre hpre hless
    refine hstop _ _ prefix_rfl ?_ (.inr ?_)
    · unfold connectMarks
      exact ((prefix_append_right_inj _).mpr hpre).trans (prefix_append _ _)
    · simp only [connectMarks, length_append]
      omega
  · intro pre hpre hless
    refine hstop _ _ prefix_rfl ?_ (.inr ?_)
    · unfold connectMarks
      exact (prefix_append_right_inj _).mpr hpre
    · simp only [connectMarks, length_append]
      omega

end Runs

/-! ## Shutdown reverses startup -/

/-- What `connect` was given of a group belongs to the group's graph. -/
structure Group.Sound (group : Group) : Prop where
  wired : group.graph.Wired
  singletons : ∀ id ∈ group.singletons, id ∈ group.graph.connectOrder
  modules : ∀ id ∈ group.modules, id < group.graph.modules.length

theorem Graph.History.sound {g : Graph} {groups : List Group} (h : g.History groups) :
    ∀ group ∈ groups, group.Sound := by
  induction h with
  | connect h =>
    intro group hgroup
    rw [mem_singleton.mp hgroup]
    have hg := wire_wired h
    refine ⟨hg, fun _ hid => hid, fun id hid => ?_⟩
    obtain ⟨m, hm, rfl⟩ := mem_map.mp hid
    exact hg.laid.module_lt hm
  | load hbase hnew h ih =>
    intro group hgroup
    rcases mem_cons.mp hgroup with rfl | hgroup
    · have hstep := wireLazy_step hbase.wired hnew h
      refine ⟨hstep.wired, fun id hid => ?_, fun id hid => ?_⟩
      · rw [hstep.order]
        exact mem_append_right _ hid
      · have hlen := hstep.conservative.modules.length_le
        have hrange := mem_range'_1.mp hid
        rw [Nat.add_sub_cancel' hlen] at hrange
        exact hrange.2
    · exact ih group hgroup
  | again _ _ _ ih => exact ih

/-- **The marks of some hooks**, in their order. -/
def Memory.HooksRan (m₀ : Memory) (hooks : List (HookOwner × ℕ)) (m : Memory) : Prop :=
  m.marks = m₀.marks ++ hooks.map fun p => .hook p.1 p.2

/-- Only the first of them, and not all. -/
def Memory.HooksStopped (m₀ : Memory) (hooks : List (HookOwner × ℕ)) (m : Memory) : Prop :=
  ∃ pre, pre <+: hooks ∧ pre.length < hooks.length ∧ m₀.HooksRan pre m

/-- **What the startup hooks of a group walk**, in any world and from any memory
that has the group's singletons. -/
theorem Group.Sound.runStartupHooks {group : Group} (h : group.Sound) (kind : HookKind) (w : World)
    {fuel : ℕ} (hfuel : group.graph.bindings.length ≤ fuel) {m₀ : Memory}
    (hstored : ∀ id ∈ group.singletons, id ∈ m₀.singletons) :
    Ensures (· = m₀) (runStartupHooks group.graph w fuel kind group.singletons group.modules)
      (fun _ => m₀.HooksRan (group.walk kind))
      ⟨fun _ => m₀.HooksStopped (group.walk kind), m₀.HooksStopped (group.walk kind)⟩ := by
  have hstart : ∀ m, m = m₀ → Walked m₀ group.singletons [] m := by
    rintro m rfl
    exact ⟨fun _ _ => rfl, hstored, (append_nil _).symm⟩
  refine ((h.wired.runStartupHooks_walks w hfuel h.singletons kind h.modules ?_).pre hstart).post
    fun _ m hm => hm.marks
  intro pre hpre hless m hm
  have htake : pre = (hookMarks group.graph kind group.singletons group.modules).take pre.length :=
    prefix_iff_eq_take.mp hpre
  have hstop : m₀.HooksStopped (group.walk kind) m := by
    refine ⟨(group.walk kind).take pre.length, take_prefix _ _, ?_, ?_⟩
    · simpa [hookMarks, Group.walk] using hless
    · rw [Memory.HooksRan, hm.marks, nil_append, map_take]
      exact congrArg _ htake
  exact ⟨hstop, fun _ => hstop⟩

/-- **Shutdown reverses startup over any history of loads.** The order has every
hook once; it is made of the groups, the last one first; and the part of a group is
the reverse of what the group's startup hooks walk. -/
theorem shutdownPlan_reverses {g : Graph} {groups : List Group} (h : g.History groups)
    (kind : HookKind) :
    (shutdownPlan g kind).Nodup ∧
    (∀ owner position, (owner, position) ∈ shutdownPlan g kind ↔
      g.Owns owner ∧ HookAt g kind owner position) ∧
    shutdownPlan g kind = (groups.flatMap fun group => (group.walk kind).reverse) ∧
    ∀ group ∈ groups, ∀ (w : World) (fuel : ℕ), group.graph.bindings.length ≤ fuel →
      ∀ m₀ : Memory, (∀ id ∈ group.singletons, id ∈ m₀.singletons) →
        Ensures (· = m₀) (runStartupHooks group.graph w fuel kind group.singletons group.modules)
          (fun _ => m₀.HooksRan (group.walk kind))
          ⟨fun _ => m₀.HooksStopped (group.walk kind), m₀.HooksStopped (group.walk kind)⟩ :=
  ⟨h.wired.shutdownPlan_nodup kind, fun _ _ => h.wired.mem_shutdownPlan, h.shutdownPlan_eq kind,
    fun group hgroup w _ hfuel _ hstored =>
      (h.sound group hgroup).runStartupHooks kind w hfuel hstored⟩

/-! ## A sample with hooks -/

/-- A hook of each kind. -/
def everyHook : List HookRecord :=
  [.onModuleInit, .onApplicationBootstrap, .beforeApplicationShutdown, .onModuleDestroy,
    .onApplicationShutdown].map fun kind => { kind }

/-- A singleton with hooks. -/
def hookedSingleton (ty : TypeId) : BindingRecord :=
  { primary := ⟨ty, unitType⟩, scope := .singleton, recipe := .construct ty, hooks := everyHook }

/-- A module with two such singletons, and hooks of its own. -/
def hookedModule (first second : TypeId) : Registration 2 where
  content :=
    { bindings := [hookedSingleton first, hookedSingleton second], hooks := everyHook }
  wellFormed := ⟨rfl, by simp, by simp⟩

/-- **A root with hooks, and a module to load.** -/
def hookedSample : Catalog where
  size := 2
  module
    | 0 => { identity := { ty := 100 }, register := fun _ => hookedModule 1 2 }
    | 1 => { identity := { ty := 101 }, register := fun _ => hookedModule 3 4 }

/-- The modules of the sample. -/
abbrev hookedIndex (i : Fin 2) : Fin hookedSample.size := i

/-- The module to load. -/
def hookedFeature : Fin hookedSample.size := hookedIndex 1

/-- The root, wired. -/
def hookedBase : Graph := (wire hookedSample (hookedIndex 0) {} none).toOption.getD {}

/-- The other module, loaded. -/
def hookedLoad : LazyWiring :=
  (wireLazy hookedSample hookedBase hookedFeature {} 0).toOption.getD ⟨{}, 0, []⟩

theorem hookedBase_eq : wire hookedSample (hookedIndex 0) {} none = .ok hookedBase :=
  Except.eq_ok_getD _ (by decide +kernel)

theorem hookedBase_new :
    hookedBase.byIdentity (hookedSample.module hookedFeature).identity = none := by decide +kernel

theorem hookedLoad_eq : wireLazy hookedSample hookedBase hookedFeature {} 0 = .ok hookedLoad :=
  Except.eq_ok_getD _ (by decide +kernel)

/-- Loaded and base hooks in shutdown order: the loaded module's own hook, its
singletons from the last, then the same of the base. -/
theorem shutdownPlan_reverses_load :
    (shutdownPlan hookedLoad.graph .onModuleDestroy).Nodup ∧
      shutdownPlan hookedLoad.graph .onModuleDestroy =
        [(.module 1, 3), (.binding 3, 3), (.binding 2, 3),
          (.module 0, 3), (.binding 1, 3), (.binding 0, 3)] := by
  have h := shutdownPlan_reverses (.load (.connect hookedBase_eq) hookedBase_new hookedLoad_eq)
    .onModuleDestroy
  exact ⟨h.1, h.2.2.1.trans (by decide +kernel)⟩

end Ulo
