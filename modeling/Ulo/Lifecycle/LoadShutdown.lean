import Ulo.Lifecycle.Shutdown

/-!
# Loads beside a shutdown

A load checks the phase, and publishes the graph that it extends some time later; a
shutdown may begin in between, and its first hook step then plans the hooks of the
extended graph. The plan is kept for whoever resumes a dropped runner, and the
resumed step reads the graph anew: where the load has failed meanwhile and has put
its base back, the plan has hooks of modules and bindings that the graph no longer
holds.

A hook is taken from the plan and found in the graph that its step was entered with,
and its resolver then reads the graph that is published by that time, in the hook's
module. So a base may also be put back between the two.

`load_shutdown_in_bounds` says that nothing else goes wrong: as long as no load puts
its base back under a plan that still has hooks of its own, or under one of them that
is being started, every lookup of a plan's owner is within the graph that it is made
in. `stale_plan_panics` is a run in which one is not.
-/

namespace Ulo

/-- Where the load stands that has the lock: there is none; it has checked the phase;
it connects what it published; it failed and has put its base back. -/
inductive LoadPlace
  | idle
  | checked
  | published (base : Graph) (out : LazyWiring)
  | undoing (out : LazyWiring)

/-- **An application with its loads and its shutdown**, and the hook that a caller has
taken from the plan and whose resolver has not read the graph yet. -/
structure Serving where
  app : App
  shutdown : ShutdownRun := {}
  load : LoadPlace := .idle
  starting : Option (ℕ × HookOwner) := none

/-- The hook that a caller waits for. -/
def ShutdownRun.started (s : ShutdownRun) (i : ℕ) : Option (ℕ × HookOwner) :=
  match s.callers[i]? with
  | some (.running _ (.hook _ _ owner)) => some (i, owner)
  | _ => none

/-- A step of the shutdown, or of a load: `resolve` is the `Resolver::new` of a hook,
`refuse` a load that publishes nothing, `store` a singleton that the walk has built,
`drop` a load that is not kept. -/
inductive ServingAction
  | shutdown (x : ShutdownAction)
  | resolve
  | check
  | publish (cat : Catalog) (m : Fin cat.size) (env : WireEnv) (location : Location)
  | refuse
  | store (id : BindingId) (i : Instance)
  | succeed
  | republish
  | remove
  | drop

namespace Serving

/-- A hook that has no resolver yet neither ends nor is dropped. -/
def waits (s : Serving) : ShutdownAction → Bool
  | .hookEnd i _ | .drop i => s.starting.any (·.1 = i)
  | _ => false

/-- The hook without a resolver, after a step of the shutdown. -/
def startingAfter (s : Serving) (shutdown : ShutdownRun) : ShutdownAction → Option (ℕ × HookOwner)
  | .hook i _ => shutdown.started i
  | _ => s.starting

/-- One step. -/
def step (s : Serving) : ServingAction → Option Serving
  | .shutdown x =>
    if s.waits x then none
    else (s.shutdown.step s.app x).map fun shutdown =>
      { s with shutdown := shutdown, starting := s.startingAfter shutdown x }
  | .resolve => if s.starting.isSome then some { s with starting := none } else none
  | .check =>
    match s.load with
    | .idle => if s.shutdown.phase.allowsLoad then some { s with load := .checked } else none
    | _ => none
  | .publish cat m env location =>
    match s.load, s.app.graph.byIdentity (cat.module m).identity,
      wireLazy cat s.app.graph m env location with
    | .checked, none, .ok out =>
      some { s with
        app := { s.app with graph := out.graph }
        load := .published s.app.graph out }
    | _, _, _ => none
  | .refuse =>
    match s.load with
    | .checked => some { s with load := .idle }
    | _ => none
  | .store id i =>
    match s.load with
    | .published _ out =>
      if id ∈ out.singletons then
        some { s with app := { s.app with memory := { s.app.memory with
          singletons := s.app.memory.singletons.insert id i } } }
      else none
    | _ => none
  | .succeed =>
    match s.load with
    | .published _ _ => some { s with load := .idle }
    | _ => none
  | .republish =>
    match s.load with
    | .published base out =>
      some { s with app := { s.app with graph := base }, load := .undoing out }
    | _ => none
  | .remove =>
    match s.load with
    | .undoing out =>
      some { s with
        app := { s.app with memory := { s.app.memory with
          singletons := s.app.memory.singletons.eraseAll out.singletons } }
        load := .idle }
    | _ => none
  | .drop =>
    match s.load with
    | .checked => some { s with load := .idle }
    | .published _ _ => some { s with load := .idle }
    | _ => none

end Serving

/-- **Loads and the shutdown**, of an application. -/
def servingMachine (a : App) : Machine Serving ServingAction where
  init := { app := a }
  step := Serving.step

/-! ## What a step can do -/

variable {x : ServingAction}

namespace Serving

variable {s s' : Serving}

/-- **The steps**, with what makes each possible. The graph changes in two of them. -/
inductive ServingStep (s : Serving) : ServingAction → Serving → Prop
  | shutdown {x : ShutdownAction} {shutdown : ShutdownRun}
      (hstep : s.shutdown.step s.app x = some shutdown) : ServingStep s (.shutdown x)
        { s with shutdown := shutdown, starting := s.startingAfter shutdown x }
  | resolve : ServingStep s .resolve { s with starting := none }
  | publish {cat : Catalog} {m : Fin cat.size} {env : WireEnv} {location : Location}
      {out : LazyWiring} (hnew : s.app.graph.byIdentity (cat.module m).identity = none)
      (hout : wireLazy cat s.app.graph m env location = .ok out) :
      ServingStep s (.publish cat m env location)
        { s with app := { s.app with graph := out.graph }, load := .published s.app.graph out }
  | republish {base : Graph} {out : LazyWiring} (hload : s.load = .published base out) :
      ServingStep s .republish
        { s with app := { s.app with graph := base }, load := .undoing out }
  | beside {x : ServingAction} {memory : Memory} {load : LoadPlace}
      (hload : load = s.load ∨ ∀ base out, load ≠ .published base out) :
      ServingStep s x { s with app := { s.app with memory := memory }, load := load }

theorem step_spec (h : s.step x = some s') : ServingStep s x s' := by
  cases x with simp only [step] at h
  | shutdown =>
    obtain ⟨-, h⟩ := Option.ite_none_left_eq_some.mp h
    obtain ⟨shutdown, hstep, rfl⟩ := Option.map_eq_some_iff.mp h
    exact .shutdown hstep
  | resolve =>
    obtain ⟨-, h⟩ := Option.ite_none_right_eq_some.mp h
    cases h
    exact .resolve
  | check =>
    split at h
    · split at h
      · cases h
        exact .beside (.inr nofun)
      · cases h
    · cases h
  | publish =>
    split at h
    case h_1 hnew hout =>
      cases h
      exact .publish hnew hout
    case h_2 => cases h
  | refuse | succeed | remove =>
    split at h
    · cases h
      exact .beside (.inr nofun)
    · cases h
  | store =>
    split at h
    · split at h
      · cases h
        exact .beside (.inl rfl)
      · cases h
    · cases h
  | republish =>
    split at h
    · rename_i hload
      cases h
      exact .republish hload
    · cases h
  | drop =>
    split at h
    · cases h
      exact .beside (.inr nofun)
    · cases h
      exact .beside (.inr nofun)
    · cases h

end Serving

/-! ## Bounds -/

/-- The hooks of the plan that are left. -/
def Progress.left (p : Progress) : List (HookOwner × ℕ) := (p.plan.getD []).drop p.cursor

/-- A graph holds the owners of what is left. -/
def Graph.Holds (g : Graph) (p : Progress) : Prop := ∀ entry ∈ p.left, g.holds entry.1 = true

variable {p : Progress} {g : Graph} {entry : HookOwner × ℕ} {kind : HookKind}

theorem Graph.holds_of_noPlan (g : Graph) (h : p.plan = none) : g.Holds p := by
  intro entry hentry
  rw [Progress.left, h] at hentry
  simp at hentry

/-- One hook fewer is left. -/
theorem Graph.Holds.count {p' : Progress} (h : g.Holds p) (hplan : p'.plan = p.plan)
    (hcursor : p'.cursor = p.cursor + 1) : g.Holds p' := by
  intro entry hentry
  rw [Progress.left, hplan, hcursor] at hentry
  exact h entry (List.drop_subset_drop_left _ (Nat.le_succ _) hentry)

/-- The next hook is one of those that are left. -/
theorem Progress.mem_left (h : (p.plan.getD [])[p.cursor]? = some entry) : entry ∈ p.left := by
  have hdrop : p.left[0]? = some entry := by
    rw [Progress.left, List.getElem?_drop]
    exact h
  exact List.mem_of_getElem? hdrop

/-- What an extension keeps. -/
theorem Graph.Extends.holds {base : Graph} (h : base.Extends g) {owner : HookOwner}
    (hbase : base.holds owner = true) : g.holds owner = true := by
  cases owner with
  | binding =>
    exact decide_eq_true ((of_decide_eq_true hbase).trans_le h.bindings.length_le)
  | module =>
    exact decide_eq_true ((of_decide_eq_true hbase).trans_le h.modules.length_le)

/-- A plan is of owners that its graph holds. -/
theorem Graph.Wired.holds_shutdownPlan (hg : g.Wired) (h : entry ∈ shutdownPlan g kind) :
    g.holds entry.1 = true :=
  hg.holds_of_owns (hg.mem_shutdownPlan.mp h).1

namespace ShutdownRun

variable {a : App} {s s' : ShutdownRun} {i : ℕ}

/-- What the place of the runner says of the plan. -/
def Looks (p : Progress) : Place → Prop
  | .next => True
  | .hooks _ g | .hook _ g _ => p.stage.kind ≠ none ∧ g.Holds p
  | .draining => p.stage = .drain
  | .closing => p.stage = .close

/-- **The plan is within a graph**, and within the one that the runner of a hook step
has read. -/
structure Bounded (g : Graph) (s : ShutdownRun) : Prop where
  who : s.Who
  planned : s.progress.stage.kind = none → s.progress.plan = none
  held : g.Holds s.progress
  looks : ∀ (i : ℕ) (signal : String) (place : Place),
    s.callers[i]? = some (.running signal place) → Looks s.progress place
  panicked : s.panicked = false

theorem Bounded.init (g : Graph) : Bounded g {} where
  who i c h := by simp at h
  planned _ := rfl
  held := g.holds_of_noPlan rfl
  looks i _ _ h := by simp at h
  panicked := rfl

section

variable (hs : s.Bounded g) (s₁ : ShutdownRun) {signal : String} {place : Place} {c' : Caller}
  (hcallers : s₁.callers = s.callers) (hc : s.callers[i]? = some (.running signal place))
  (hwho : (s₁.put i c').Who) (hlooks : Stands (Looks s₁.progress) c')
  (hpanicked : s₁.panicked = s.panicked)
include hs s₁ hcallers hc hwho hlooks hpanicked

/-- A step of the runner. -/
theorem Bounded.runs (hplanned : s₁.progress.stage.kind = none → s₁.progress.plan = none)
    (hheld : g.Holds s₁.progress) : (s₁.put i c').Bounded g where
  who := hwho
  planned := hplanned
  held := hheld
  looks _ _ _ hj := hs.who.stands hcallers hc hlooks hj
  panicked := hpanicked.trans hs.panicked

/-- A step of the runner from one that has no plan. -/
theorem Bounded.unplanned (hkind : s.progress.stage.kind = none)
    (hplan : s₁.progress.plan = s.progress.plan) : (s₁.put i c').Bounded g := by
  have hnone : s₁.progress.plan = none := hplan.trans (hs.planned hkind)
  exact hs.runs s₁ hcallers hc hwho hlooks hpanicked (fun _ => hnone) (g.holds_of_noPlan hnone)

end

/-- A step that leaves the sequence alone. -/
theorem Bounded.moves (hs : s.Bounded g) (s₁ : ShutdownRun) {c c' : Caller}
    (hcallers : s₁.callers = s.callers) (hc : s.callers[i]? = some c) (hwho : (s₁.put i c').Who)
    (hprogress : s₁.progress = s.progress) (hlooks : Stands (Looks s.progress) c')
    (hpanicked : s₁.panicked = s.panicked) : (s₁.put i c').Bounded g where
  who := hwho
  planned := hprogress ▸ hs.planned
  held := hprogress ▸ hs.held
  looks _ _ place' hj := by
    show Looks s₁.progress place'
    rw [hprogress]
    exact stands_put hcallers (fun _ => hs.looks _ _ _) hc hlooks hj
  panicked := hpanicked.trans hs.panicked

section Steps

variable (hs : s.Bounded a.graph) {i : ℕ} {signal : String}
include hs

/-- The plan that a hook step is entered with: its own, or the one that is there. -/
theorem Bounded.enterHooks (hg : a.graph.Wired) (kind : HookKind) :
    a.graph.Holds (s.enterHooks a.graph kind).progress := by
  intro entry hentry
  cases hplan : s.progress.plan with
  | some plan =>
    refine hs.held entry ?_
    rw [Progress.left] at hentry ⊢
    rw [show (s.enterHooks a.graph kind).progress.plan =
      (s.progress.plan <|> some (shutdownPlan a.graph kind)) from rfl, hplan] at hentry
    rw [hplan]
    exact hentry
  | none =>
    rw [Progress.left, show (s.enterHooks a.graph kind).progress.plan =
      (s.progress.plan <|> some (shutdownPlan a.graph kind)) from rfl, hplan] at hentry
    have hmem : entry ∈ shutdownPlan a.graph kind := List.mem_of_mem_drop hentry
    exact hg.holds_shutdownPlan hmem

theorem Bounded.next (hg : a.graph.Wired) (hc : s.callers[i]? = some (.running signal .next))
    (h : NextStep a s i signal s') : s'.Bounded a.graph := by
  have hwho := hs.who.next hc h
  cases h with
  | begin hstage => exact hs.unplanned s.begin rfl hc hwho trivial rfl (by rw [hstage]; rfl) rfl
  | enterHooks hkind =>
    have hsome : s.progress.stage.kind ≠ none := fun hnone => absurd (hkind.symm.trans hnone) nofun
    exact hs.runs (s.enterHooks a.graph _) rfl hc hwho ⟨hsome, hs.enterHooks hg _⟩ rfl
      (fun hnone => absurd hnone hsome) (hs.enterHooks hg _)
  | drain hstage =>
    have hprogress : s.startDrain.progress.plan = s.progress.plan ∧
        s.startDrain.progress.stage = s.progress.stage ∧ s.startDrain.callers = s.callers ∧
        s.startDrain.panicked = s.panicked := by
      unfold ShutdownRun.startDrain
      split <;> exact ⟨rfl, rfl, rfl, rfl⟩
    obtain ⟨hplan, hstage', hcallers, hpanicked⟩ := hprogress
    exact hs.unplanned s.startDrain hcallers hc hwho (hstage'.trans hstage) hpanicked
      (by rw [hstage]; rfl) hplan
  | closed hstage =>
    exact hs.unplanned (s.endClose []) rfl hc hwho trivial rfl (by rw [hstage]; rfl) rfl
  | close hstage =>
    exact hs.unplanned s.startClose rfl hc hwho hstage rfl (by rw [hstage]; rfl) rfl
  | finish hstage => exact hs.unplanned _ rfl hc hwho trivial rfl (by rw [hstage]; rfl) rfl

theorem Bounded.hook (hc : s.callers[i]? = some (.running signal (.hooks kind g)))
    (h : HookStep a s i signal kind g s') : s'.Bounded a.graph := by
  have hwho := hs.who.hook hc h
  obtain ⟨hkind, hlooked⟩ := hs.looks i _ _ hc
  -- a step that leaves the runner at its place
  have hstays : ∀ s₁ : ShutdownRun, s₁.callers = s.callers → s₁.Who →
      s₁.progress.stage = s.progress.stage → s₁.progress.plan = s.progress.plan →
      s₁.progress.cursor = s.progress.cursor + 1 → s₁.panicked = s.panicked →
      s₁.Bounded a.graph := by
    intro s₁ hcallers hwho₁ hstage hplan hcursor hpanicked
    refine ⟨hwho₁, fun hnone => absurd (hstage ▸ hnone) hkind, hs.held.count hplan hcursor,
      fun _ _ _ hj => hs.who.stays hcallers hc ?_ hj, hpanicked.trans hs.panicked⟩
    exact ⟨hstage ▸ hkind, hlooked.count hplan hcursor⟩
  cases h with
  | leave =>
    exact hs.runs s.leaveHooks rfl hc hwho trivial rfl (fun _ => rfl) (a.graph.holds_of_noPlan rfl)
  | none | skip | unbuilt => exact hstays _ rfl hwho rfl rfl rfl rfl
  | start =>
    exact hs.runs _ rfl hc hwho ⟨hkind, hlooked.count rfl rfl⟩ rfl
      (fun hnone => absurd hnone hkind) (hs.held.count rfl rfl)
  | @panic owner position hentry hholds =>
    -- the runner looks its hook up in the graph that it read
    rw [hlooked _ (Progress.mem_left hentry)] at hholds
    cases hholds

/-- **Every step of the shutdown keeps the plan within the graph.** -/
theorem Bounded.step (hg : a.graph.Wired) {x : ShutdownAction} (h : s.step a x = some s') :
    s'.Bounded a.graph := by
  have hwho := hs.who.step h
  cases step_spec h with
  | call =>
    refine ⟨hwho, ?_, ?_, fun j signal' place' hj => ?_, ?_⟩
    all_goals rw [trigger_eq]
    · exact hs.planned
    · exact hs.held
    · exact hs.looks j signal' place' (running_of_call hj)
    · exact hs.panicked
  | start hc | lock hc | dropLocking hc | dropRunning hc | unlock hc =>
    exact hs.moves _ rfl hc hwho rfl trivial rfl
  | receive hc | dropWaiting hc => exact hs.moves s rfl hc hwho rfl trivial rfl
  | next hc hnext => exact hs.next hg hc hnext
  | hook hc hhook => exact hs.hook hc hhook
  | hookDone hc =>
    have hlooks := hs.looks _ _ _ hc
    exact hs.moves s rfl hc hwho rfl hlooks rfl
  | hookFailed hc =>
    have hlooks := hs.looks _ _ _ hc
    exact hs.runs (s.fail _) rfl hc hwho hlooks rfl hs.planned hs.held
  | drainEnd hc =>
    have hstage : s.progress.stage = .drain := hs.looks _ _ _ hc
    exact hs.unplanned (s.endDrain _ _) rfl hc hwho trivial rfl (by rw [hstage]; rfl) rfl
  | closeEnd hc =>
    have hstage : s.progress.stage = .close := hs.looks _ _ _ hc
    exact hs.unplanned (s.endClose _) rfl hc hwho trivial rfl (by rw [hstage]; rfl) rfl
  | listen | refuse => exact ⟨hwho, hs.planned, hs.held, hs.looks, hs.panicked⟩

end Steps

/-- The hook that a caller takes is one of those that are left. -/
theorem started_mem {signal : String} {owner : HookOwner} {j : ℕ}
    (hc : s.callers[i]? = some (.running signal (.hooks kind g)))
    (h : HookStep a s i signal kind g s') (hstarted : s'.started i = some (j, owner)) :
    ∃ position, (owner, position) ∈ s.progress.left := by
  have hlt : i < s.callers.length := (List.getElem?_eq_some_iff.mp hc).1
  unfold started at hstarted
  split at hstarted
  · rename_i hnow
    cases hstarted
    cases h with
    | leave | panic => cases (List.getElem?_set_self hlt).symm.trans hnow
    | none | skip | unbuilt => cases hc.symm.trans hnow
    | start hentry =>
      cases (List.getElem?_set_self hlt).symm.trans hnow
      exact ⟨_, Progress.mem_left hentry⟩
  · cases hstarted

end ShutdownRun

/-! ## Runs -/

namespace Serving

variable {s s' : Serving}

/-- A graph holds the owner of the hook that is being started. -/
def HoldsStarting (s : Serving) (g : Graph) : Prop :=
  ∀ i owner, s.starting = some (i, owner) → g.holds owner = true

/-- **Every owner that is looked up is within the graph that it is looked up in**: no
lookup has failed; the runner of a hook step has read a graph that holds the owners of
all hooks left, as the published one does, which their resolvers read; and so does it
hold the owner of the hook whose resolver reads it next. -/
def InBounds (s : Serving) : Prop :=
  s.shutdown.panicked = false ∧
    (∀ (i : ℕ) (signal : String) (kind : HookKind) (g : Graph),
      s.shutdown.callers[i]? = some (.running signal (.hooks kind g)) →
        g.Holds s.shutdown.progress ∧ s.app.graph.Holds s.shutdown.progress) ∧
    s.HoldsStarting s.app.graph

/-- **A load puts its base back** only where the base holds what is left of the plan, and
the hook that is being started. -/
def Calm (s : Serving) (x : ServingAction) : Prop :=
  x = .republish → ∀ base out, s.load = .published base out →
    base.Holds s.shutdown.progress ∧ s.HoldsStarting base

/-- **The invariant**: the plan is within the graph that is published. -/
structure Inv (s : Serving) : Prop where
  wired : s.app.graph.Wired
  bounded : s.shutdown.Bounded s.app.graph
  starting : s.HoldsStarting s.app.graph
  base : ∀ base out, s.load = .published base out → base.Wired

theorem Inv.inBounds (hs : s.Inv) : s.InBounds :=
  ⟨hs.bounded.panicked, fun i signal _ _ hc =>
    ⟨(hs.bounded.looks i signal _ hc).2, hs.bounded.held⟩, hs.starting⟩

/-- The hook that a step of the shutdown starts is of an owner that the graph holds. -/
theorem Inv.shutdown (hs : s.Inv) {x : ShutdownAction} {shutdown : ShutdownRun}
    (hstep : s.shutdown.step s.app x = some shutdown) :
    Inv { s with shutdown := shutdown, starting := s.startingAfter shutdown x } := by
  refine { hs with bounded := hs.bounded.step hs.wired hstep, starting := ?_ }
  cases ShutdownRun.step_spec hstep with
  | hook hc hhook =>
    intro j owner hstarting
    obtain ⟨position, hmem⟩ := ShutdownRun.started_mem hc hhook hstarting
    exact hs.bounded.held _ hmem
  | _ => exact hs.starting

/-- The plan is within another graph. -/
theorem Bounded.of_holds {g' : Graph} {r : ShutdownRun} (h : r.Bounded g)
    (hholds : g'.Holds r.progress) : r.Bounded g' :=
  ⟨h.who, h.planned, hholds, h.looks, h.panicked⟩

/-- **Every step keeps the invariant**, a calm one where it puts a base back. -/
theorem Inv.step (hs : s.Inv) (hcalm : s.Calm x) (h : s.step x = some s') : s'.Inv := by
  cases step_spec h with
  | shutdown hstep => exact hs.shutdown hstep
  | resolve => exact { hs with starting := nofun }
  | publish hnew hout =>
    have hload := wireLazy_step hs.wired hnew hout
    refine ⟨hload.wired, Bounded.of_holds hs.bounded fun entry hentry => ?_,
      fun i owner h => hload.conservative.holds (hs.starting i owner h), fun base out heq => ?_⟩
    · exact hload.conservative.holds (hs.bounded.held entry hentry)
    · cases heq
      exact hs.wired
  | republish hload =>
    obtain ⟨hheld, hstarting⟩ := hcalm rfl _ _ hload
    exact ⟨hs.base _ _ hload, Bounded.of_holds hs.bounded hheld, hstarting, nofun⟩
  | beside hload =>
    refine { hs with base := fun base out heq => ?_ }
    rcases hload with rfl | hload
    · exact hs.base base out heq
    · exact absurd heq (hload base out)

end Serving

/-- **A plan stays within the graph**, in any interleaving of loads with a shutdown
whose runner may be dropped and resumed, as long as no load puts its base back while
hooks of its own are left in the plan under way, or one of them is being started. -/
theorem load_shutdown_in_bounds {kept : Bool} {a : App} (ha : a.Reachable kept)
    {t : List ServingAction} {s : Serving} (h : (servingMachine a).run t = some s)
    (hcalm : ∀ (pre : List ServingAction) (s₀ : Serving) (x : ServingAction),
      (servingMachine a).TookAt t pre s₀ x → s₀.Calm x) : s.InBounds := by
  suffices hs : s.Inv from hs.inBounds
  refine Machine.invariant_of_steps (P := Serving.Inv) ?_ (fun s x s' hs hx => hs.step hx) hcalm h
  exact ⟨ha.sound.wired, .init a.graph, nofun, nofun⟩

/-- A load that has published its graph, and a shutdown that has planned its first step
with it, when its runner is dropped in the first hook. -/
def plannedWithLoad : List ServingAction :=
  [.check, .publish hookedSample hookedFeature {} 0] ++
    [.call "first" none, .call "second" none, .start 0, .lock 0, .next 0, .next 0,
      .hook 0 false].map .shutdown ++ [.resolve, .shutdown (.drop 0), .shutdown (.unlock 0)]

/-- Another caller goes on. -/
def goesOn : List ServingAction :=
  [.start 1, .lock 1, .next 1, .hook 1 false].map .shutdown

/-- With the load still connecting, the hooks of its module are there. -/
theorem load_shutdown_in_bounds_connecting :
    ∃ s, (servingMachine hookedApp).run (plannedWithLoad ++ goesOn) = some s ∧ s.InBounds := by
  have hsome : ((servingMachine hookedApp).run (plannedWithLoad ++ goesOn)).isSome = true := by
    decide +kernel
  obtain ⟨s, hs⟩ := Option.isSome_iff_exists.mp hsome
  refine ⟨s, hs, load_shutdown_in_bounds (hookedApp_reachable true) hs fun pre s₀ x htook hx => ?_⟩
  have hmem := htook.taken.subset (List.mem_append_right pre (List.mem_singleton_self x))
  rw [hx] at hmem
  simp [plannedWithLoad, goesOn] at hmem

/-- **A stale plan.** The load fails and puts its base back; the caller that goes on looks
the next hook of the plan up in the base, which does not hold its owner. -/
theorem stale_plan_panics :
    hookedApp.Reachable true ∧
      ∃ s, (servingMachine hookedApp).run (plannedWithLoad ++ [.republish] ++ goesOn) = some s ∧
        s.shutdown.panicked = true ∧ ¬ s.InBounds := by
  have hpanicked : ((servingMachine hookedApp).run
      (plannedWithLoad ++ [.republish] ++ goesOn)).map (·.shutdown.panicked) = some true := by
    decide +kernel
  obtain ⟨s, hs, hs'⟩ := Option.map_eq_some_iff.mp hpanicked
  exact ⟨hookedApp_reachable true, s, hs, hs', fun h => absurd (h.1.symm.trans hs') nofun⟩

end Ulo
