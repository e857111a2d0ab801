import Ulo.Lifecycle.Load
import Ulo.Lifecycle.Release

/-!
# The shutdown sequence

Every `close` and `serve` waits for one outcome. Whoever comes first runs the
sequence that makes it; where its future is dropped, at any await, another of them
takes over from what the dropped one left in `Progress`: a stage, the plan of the
hook step under way, how far the step is, and whether the servers drain.

The callers, the cell that holds the outcome and the lock of `Progress` are one
machine here, in which a step runs from one await of a caller to the next. Time is
left open: a hook may find the cap expired, and end in any way.
`shutdown_survives_drops` says that no drop makes the sequence repeat or leave out
anything.
-/

namespace Ulo

open List Option

/-- `ShutdownFailure`, of those that the sequence records. -/
inductive ShutdownFailure
  | hook (kind : HookKind) (key : KeyName) (reason : FailureReason)
  | close (transport : TypeId) (reason : FailureReason)
  | serve (transport : TypeId)
deriving DecidableEq

/-- `Stage`. -/
inductive ShutdownStage
  | trigger
  | beforeShutdown
  | drain
  | destroy
  | close
  | shutdown
  | done
deriving DecidableEq

/-- The stage that follows. -/
def ShutdownStage.after : ShutdownStage → ShutdownStage
  | trigger => beforeShutdown
  | beforeShutdown => drain
  | drain => destroy
  | destroy => close
  | close => shutdown
  | shutdown => done
  | done => done

/-- The position of a stage. -/
def ShutdownStage.rank : ShutdownStage → ℕ
  | trigger => 0
  | beforeShutdown => 1
  | drain => 2
  | destroy => 3
  | close => 4
  | shutdown => 5
  | done => 6

/-- The hooks that a stage runs. -/
def ShutdownStage.kind : ShutdownStage → Option HookKind
  | beforeShutdown => some .beforeApplicationShutdown
  | destroy => some .onModuleDestroy
  | shutdown => some .onApplicationShutdown
  | _ => none

/-- `Progress`, but for its clocks. -/
structure Progress where
  stage : ShutdownStage := .trigger
  plan : Option (List (HookOwner × ℕ)) := none
  cursor : ℕ := 0
  acceptingStopped : Bool := false
  failures : List ShutdownFailure := []
  abandoned : ℕ := 0
  terminalAbandoned : ℕ := 0

/-- **The outcome**: a `Shutdown`, and the failures of a `ShutdownError`, which are
none for an `Ok`. -/
structure ShutdownOutcome where
  signal : String
  abandoned : ℕ
  terminalSkipped : ℕ
  failures : List ShutdownFailure
deriving DecidableEq

/-- Where the runner of the sequence stands: between two steps; between two hooks of
a step, with the graph that it read as it entered the step; and in an await, for a
hook, for the drain or for the servers to close. -/
inductive Place
  | next
  | hooks (kind : HookKind) (g : Graph)
  | hook (kind : HookKind) (g : Graph) (owner : HookOwner)
  | draining
  | closing

/-- Whether the runner is in an await. -/
def Place.awaits : Place → Bool
  | hook _ _ _ | draining | closing => true
  | _ => false

/-- **A `close` or `serve`**, in its `run_sequence`: it waits for the cell, or has
taken it and waits for the lock, or runs; it has its outcome; or its future is
dropped, at first with the lock, if it ran. -/
inductive Caller
  | waiting (signal : String)
  | locking (signal : String)
  | running (signal : String) (place : Place)
  | unlocking
  | received (outcome : ShutdownOutcome)
  | gone

/-- The outcome that a caller received. -/
def Caller.outcome : Caller → Option ShutdownOutcome
  | received outcome => some outcome
  | _ => none

variable {o : ShutdownOutcome} {owner : HookOwner} {g : Graph}

theorem Caller.eq_received {c : Caller} (h : c.outcome = some o) : c = .received o := by
  cases c with
  | received => exact congrArg Caller.received (some.inj h)
  | _ => cases h

/-- The cell of the outcome, and who is making it. -/
inductive OutcomeCell
  | empty
  | initializing (i : ℕ)
  | done (outcome : ShutdownOutcome)
deriving DecidableEq

/-- What the sequence does to others: a hook is started, a server drains or closes.
Servers are numbered in bind order. -/
inductive ShutdownEvent
  | start (kind : HookKind) (owner : HookOwner) (position : ℕ)
  | drain (server : ℕ)
  | close (server : ℕ)
deriving DecidableEq

/-- The stage that runs the hooks of a kind has this rank. -/
def HookKind.shutdownRank : HookKind → ℕ
  | .beforeApplicationShutdown => ShutdownStage.beforeShutdown.rank
  | .onModuleDestroy => ShutdownStage.destroy.rank
  | .onApplicationShutdown => ShutdownStage.shutdown.rank
  | _ => 0

/-- The step of the sequence that an event belongs to. -/
def ShutdownEvent.rank : ShutdownEvent → ℕ
  | start kind _ _ => kind.shutdownRank
  | drain _ => ShutdownStage.drain.rank
  | close _ => ShutdownStage.close.rank

/-- **What the callers share.** `listened` says that `listen` has handed over its
servers. -/
structure ShutdownRun where
  signal : Option String := none
  cause : Option ShutdownFailure := none
  phase : Phase := .running
  terminalRefused : ℕ := 0
  servers : List TypeId := []
  listened : Bool := false
  cell : OutcomeCell := .empty
  lock : Option ℕ := none
  progress : Progress := {}
  callers : List Caller := []
  log : List ShutdownEvent := []
  panicked : Bool := false

/-- A step: a new caller, one that takes the cell, the lock or the outcome, or is
dropped; the runner's next step, or the end of its await; and what happens beside. -/
inductive ShutdownAction
  | call (signal : String) (cause : Option ShutdownFailure)
  | start (i : ℕ)
  | lock (i : ℕ)
  | receive (i : ℕ)
  | drop (i : ℕ)
  | unlock (i : ℕ)
  | next (i : ℕ)
  | hook (i : ℕ) (expired : Bool)
  | hookEnd (i : ℕ) (outcome : Outcome)
  | drainEnd (i abandoned terminal : ℕ)
  | closeEnd (i : ℕ) (ended : List (Option FailureReason))
  | listen (servers : List TypeId)
  | refuse
deriving DecidableEq

/-- Whether a graph holds the owner of a hook. -/
def Graph.holds (g : Graph) : HookOwner → Bool
  | .binding id => id < g.bindings.length
  | .module id => id < g.modules.length

/-- A graph holds what owns hooks in it. -/
theorem Graph.Wired.holds_of_owns (hg : g.Wired) (h : g.Owns owner) : g.holds owner = true := by
  cases owner with
  | binding => exact decide_eq_true (hg.mem_connectOrder.mp h).1
  | module => exact decide_eq_true h

/-- Why a hook that ran failed, if it did. -/
def hookFailure : Outcome → Option FailureReason
  | .done _ => none
  | .dependency _ => some (.errored false)
  | .failed permanent => some (.errored permanent)
  | .panicked => some .panicked
  | .timedOut => some .timedOut
  | .refused => some (.errored true)

namespace ShutdownRun

/-- A caller has moved. -/
def put (s : ShutdownRun) (i : ℕ) (c : Caller) : ShutdownRun :=
  { s with callers := s.callers.set i c }

/-- `trigger_with`: the first one wins. -/
def trigger (s : ShutdownRun) (signal : String) (cause : Option ShutdownFailure) : ShutdownRun :=
  match s.signal with
  | some _ => s
  | none => { s with signal := some signal, cause := cause }

/-- The step at `Stage::Trigger`. -/
def begin (s : ShutdownRun) : ShutdownRun :=
  { s with
    cause := none
    phase := s.phase.advance .stopping
    progress := { s.progress with
      failures := s.progress.failures ++ s.cause.toList
      stage := s.progress.stage.after } }

/-- `run_hook_step`, up to its loop. -/
def enterHooks (g : Graph) (s : ShutdownRun) (kind : HookKind) : ShutdownRun :=
  { s with
    phase := if kind = .onModuleDestroy then s.phase.advance .destroying else s.phase
    progress := { s.progress with
      plan := s.progress.plan <|> some (shutdownPlan g kind) } }

/-- The end of a hook step. -/
def leaveHooks (s : ShutdownRun) : ShutdownRun :=
  { s with
    phase := if s.progress.stage = .shutdown then s.phase.advance .closed else s.phase
    progress := { s.progress with plan := none, cursor := 0, stage := s.progress.stage.after } }

/-- One more failure. -/
def fail (s : ShutdownRun) (failure : ShutdownFailure) : ShutdownRun :=
  { s with progress := { s.progress with failures := s.progress.failures ++ [failure] } }

/-- `drain`, up to its wait. -/
def startDrain (s : ShutdownRun) : ShutdownRun :=
  if s.progress.acceptingStopped then s
  else
    { s with
      phase := s.phase.advance .draining
      progress := { s.progress with acceptingStopped := true }
      log := s.log ++ (List.range s.servers.length).map .drain }

/-- The end of the drain. -/
def endDrain (s : ShutdownRun) (abandoned terminal : ℕ) : ShutdownRun :=
  { s with progress := { s.progress with
      abandoned := abandoned
      terminalAbandoned := terminal
      stage := s.progress.stage.after } }

/-- `close_servers`, up to its wait. -/
def startClose (s : ShutdownRun) : ShutdownRun :=
  { s with
    progress := { s.progress with cursor := s.servers.length }
    log := s.log ++ (List.range s.servers.length).reverse.map .close }

/-- The failures of the close step, in bind order. -/
def closeFailures (servers : List TypeId) (ended : List (Option FailureReason)) :
    List ShutdownFailure :=
  (servers.zip ended).filterMap fun p => p.2.map (.close p.1)

/-- The end of the close step, which lets go of the servers. -/
def endClose (s : ShutdownRun) (failures : List ShutdownFailure) : ShutdownRun :=
  { s with
    servers := []
    progress := { s.progress with
      failures := s.progress.failures ++ failures
      cursor := 0
      stage := s.progress.stage.after } }

/-- The outcome of a sequence that is done. -/
def outcome (s : ShutdownRun) (signal : String) : ShutdownOutcome where
  signal := signal
  abandoned := s.progress.abandoned
  terminalSkipped := s.progress.terminalAbandoned + s.terminalRefused
  failures := s.progress.failures

/-- The end of the sequence: the outcome goes to the cell, and the lock is free. -/
def finish (s : ShutdownRun) (i : ℕ) (signal : String) : ShutdownRun :=
  ({ s with
    cell := .done (s.outcome signal)
    lock := none
    progress := { s.progress with failures := [] } } : ShutdownRun).put i
      (.received (s.outcome signal))

/-- A panic of the runner: it unwinds through the lock and the cell. -/
def panic (s : ShutdownRun) (i : ℕ) : ShutdownRun :=
  ({ s with panicked := true, cell := .empty } : ShutdownRun).put i .unlocking

/-- The runner's step from the end of one step to an await, or to the next hook. -/
def next (a : App) (s : ShutdownRun) (i : ℕ) (signal : String) : ShutdownRun :=
  match s.progress.stage with
  | .trigger => s.begin.put i (.running signal .next)
  | .beforeShutdown =>
    (s.enterHooks a.graph .beforeApplicationShutdown).put i
      (.running signal (.hooks .beforeApplicationShutdown a.graph))
  | .drain => s.startDrain.put i (.running signal .draining)
  | .destroy =>
    (s.enterHooks a.graph .onModuleDestroy).put i
      (.running signal (.hooks .onModuleDestroy a.graph))
  | .close =>
    if s.servers.length ≤ s.progress.cursor then (s.endClose []).put i (.running signal .next)
    else s.startClose.put i (.running signal .closing)
  | .shutdown =>
    (s.enterHooks a.graph .onApplicationShutdown).put i
      (.running signal (.hooks .onApplicationShutdown a.graph))
  | .done => s.finish i signal

/-- Whether `run_hook` runs a hook: its singleton was built, if it has one. -/
def runsHook (a : App) : HookOwner → Bool
  | .binding id => (a.memory.singletons.lookup id).isSome
  | .module _ => true

/-- The loop of `run_hook_step`: one hook of the plan, or its end. -/
def hook (a : App) (s : ShutdownRun) (i : ℕ) (signal : String) (kind : HookKind) (g : Graph)
    (expired : Bool) : ShutdownRun :=
  match (s.progress.plan.getD [])[s.progress.cursor]? with
  | none => s.leaveHooks.put i (.running signal .next)
  | some (owner, position) =>
    let s : ShutdownRun :=
      { s with progress := { s.progress with cursor := s.progress.cursor + 1 } }
    if g.holds owner then
      match (hooksOf g owner)[position]? with
      | none => s
      | some _ =>
        if expired then s.fail (.hook kind (ownerKey g owner) .skipped)
        else if runsHook a owner then
          ({ s with log := s.log ++ [.start kind owner position] } : ShutdownRun).put i
            (.running signal (.hook kind g owner))
        else s
    else s.panic i

/-- One step. -/
def step (a : App) (s : ShutdownRun) : ShutdownAction → Option ShutdownRun
  | .call signal cause =>
    let s := s.trigger signal cause
    some { s with callers := s.callers ++ [.waiting (s.signal.getD signal)] }
  | .start i =>
    match s.callers[i]?, s.cell with
    | some (.waiting signal), .empty =>
      some (({ s with cell := .initializing i } : ShutdownRun).put i (.locking signal))
    | _, _ => none
  | .lock i =>
    match s.callers[i]?, s.lock with
    | some (.locking signal), none =>
      some (({ s with lock := some i } : ShutdownRun).put i (.running signal .next))
    | _, _ => none
  | .receive i =>
    match s.callers[i]?, s.cell with
    | some (.waiting _), .done outcome => some (s.put i (.received outcome))
    | _, _ => none
  | .drop i =>
    match s.callers[i]? with
    | some (.waiting _) => some (s.put i .gone)
    | some (.locking _) => some (({ s with cell := .empty } : ShutdownRun).put i .gone)
    | some (.running _ place) =>
      if place.awaits then some (({ s with cell := .empty } : ShutdownRun).put i .unlocking)
      else none
    | _ => none
  | .unlock i =>
    match s.callers[i]? with
    | some .unlocking => some (({ s with lock := none } : ShutdownRun).put i .gone)
    | _ => none
  | .next i =>
    match s.callers[i]? with
    | some (.running signal .next) => some (s.next a i signal)
    | _ => none
  | .hook i expired =>
    match s.callers[i]? with
    | some (.running signal (.hooks kind g)) => some (s.hook a i signal kind g expired)
    | _ => none
  | .hookEnd i outcome =>
    match s.callers[i]? with
    | some (.running signal (.hook kind g owner)) =>
      let s := match hookFailure outcome with
        | none => s
        | some reason => s.fail (.hook kind (ownerKey g owner) reason)
      some (s.put i (.running signal (.hooks kind g)))
    | _ => none
  | .drainEnd i abandoned terminal =>
    match s.callers[i]? with
    | some (.running signal .draining) =>
      some ((s.endDrain abandoned terminal).put i (.running signal .next))
    | _ => none
  | .closeEnd i ended =>
    match s.callers[i]? with
    | some (.running signal .closing) =>
      some ((s.endClose (closeFailures s.servers ended)).put i (.running signal .next))
    | _ => none
  | .listen servers =>
    if s.listened then none else some { s with servers := servers, listened := true }
  | .refuse => some { s with terminalRefused := s.terminalRefused + 1 }

end ShutdownRun

/-- **The shutdown of an application.** -/
def shutdownMachine (a : App) : Machine ShutdownRun ShutdownAction where
  init := {}
  step := ShutdownRun.step a

/-! ## What a step can do -/

namespace ShutdownRun

variable {a : App} {s s' : ShutdownRun} {i j : ℕ} {signal : String} {place : Place}
  {x : ShutdownAction} {c c' d : Caller} {cell : OutcomeCell} {lock : Option ℕ} {kind : HookKind}
  {stage : ShutdownStage} {entry : HookOwner × ℕ} {e : ShutdownEvent}

/-- The runner's steps between two steps of the sequence. -/
inductive NextStep (a : App) (s : ShutdownRun) (i : ℕ) (signal : String) : ShutdownRun → Prop
  | begin (hstage : s.progress.stage = .trigger) :
      NextStep a s i signal (s.begin.put i (.running signal .next))
  | enterHooks {kind : HookKind} (hkind : s.progress.stage.kind = some kind) :
      NextStep a s i signal
        ((s.enterHooks a.graph kind).put i (.running signal (.hooks kind a.graph)))
  | drain (hstage : s.progress.stage = .drain) :
      NextStep a s i signal (s.startDrain.put i (.running signal .draining))
  | closed (hstage : s.progress.stage = .close) (hcursor : s.servers.length ≤ s.progress.cursor) :
      NextStep a s i signal ((s.endClose []).put i (.running signal .next))
  | close (hstage : s.progress.stage = .close) (hcursor : s.progress.cursor < s.servers.length) :
      NextStep a s i signal (s.startClose.put i (.running signal .closing))
  | finish (hstage : s.progress.stage = .done) : NextStep a s i signal (s.finish i signal)

theorem next_spec (a : App) (s : ShutdownRun) (i : ℕ) (signal : String) :
    NextStep a s i signal (s.next a i signal) := by
  unfold next
  split
  case h_1 hstage => exact .begin hstage
  case h_2 hstage => exact .enterHooks (by rw [hstage]; rfl)
  case h_3 hstage => exact .drain hstage
  case h_4 hstage => exact .enterHooks (by rw [hstage]; rfl)
  case h_5 hstage =>
    split
    · rename_i hcursor
      exact .closed hstage hcursor
    · rename_i hcursor
      exact .close hstage (Nat.not_le.mp hcursor)
  case h_6 hstage => exact .enterHooks (by rw [hstage]; rfl)
  case h_7 hstage => exact .finish hstage

/-- One more hook of the plan was looked at. -/
def count (s : ShutdownRun) : ShutdownRun :=
  { s with progress := { s.progress with cursor := s.progress.cursor + 1 } }

/-- The runner's steps in a hook step. -/
inductive HookStep (a : App) (s : ShutdownRun) (i : ℕ) (signal : String) (kind : HookKind)
    (g : Graph) : ShutdownRun → Prop
  | leave (hentry : (s.progress.plan.getD [])[s.progress.cursor]? = none) :
      HookStep a s i signal kind g (s.leaveHooks.put i (.running signal .next))
  | none {owner : HookOwner} {position : ℕ}
      (hentry : (s.progress.plan.getD [])[s.progress.cursor]? = some (owner, position))
      (hhook : (hooksOf g owner)[position]? = none) : HookStep a s i signal kind g s.count
  | skip {owner : HookOwner} {position : ℕ}
      (hentry : (s.progress.plan.getD [])[s.progress.cursor]? = some (owner, position)) :
      HookStep a s i signal kind g (s.count.fail (.hook kind (ownerKey g owner) .skipped))
  | start {owner : HookOwner} {position : ℕ}
      (hentry : (s.progress.plan.getD [])[s.progress.cursor]? = some (owner, position)) :
      HookStep a s i signal kind g
        (({ s.count with log := s.log ++ [.start kind owner position] } : ShutdownRun).put i
          (.running signal (.hook kind g owner)))
  | unbuilt {owner : HookOwner} {position : ℕ}
      (hentry : (s.progress.plan.getD [])[s.progress.cursor]? = some (owner, position))
      (hbuilt : runsHook a owner = false) : HookStep a s i signal kind g s.count
  | panic {owner : HookOwner} {position : ℕ}
      (hentry : (s.progress.plan.getD [])[s.progress.cursor]? = some (owner, position))
      (hholds : g.holds owner = false) : HookStep a s i signal kind g (s.count.panic i)

theorem hook_spec (a : App) (s : ShutdownRun) (i : ℕ) (signal : String) (kind : HookKind)
    (g : Graph) (expired : Bool) :
    HookStep a s i signal kind g (s.hook a i signal kind g expired) := by
  unfold hook
  split
  · rename_i hentry
    exact .leave hentry
  · rename_i hentry
    dsimp only
    split
    · split
      · rename_i hhook
        exact .none hentry hhook
      · split
        · exact .skip hentry
        · split
          · exact .start hentry
          · rename_i hbuilt
            exact .unbuilt hentry (Bool.not_eq_true _ ▸ hbuilt)
    · rename_i hholds
      exact .panic hentry (Bool.not_eq_true _ ▸ hholds)

/-- **The steps**, with what makes each possible. -/
inductive ShutdownStep (a : App) (s : ShutdownRun) : ShutdownAction → ShutdownRun → Prop
  | call {signal : String} {cause : Option ShutdownFailure} :
      ShutdownStep a s (.call signal cause) { s.trigger signal cause with
        callers := s.callers ++ [.waiting ((s.trigger signal cause).signal.getD signal)] }
  | start {i : ℕ} {signal : String} (hc : s.callers[i]? = some (.waiting signal))
      (hcell : s.cell = .empty) : ShutdownStep a s (.start i)
        (({ s with cell := .initializing i } : ShutdownRun).put i (.locking signal))
  | lock {i : ℕ} {signal : String} (hc : s.callers[i]? = some (.locking signal))
      (hlock : s.lock = none) : ShutdownStep a s (.lock i)
        (({ s with lock := some i } : ShutdownRun).put i (.running signal .next))
  | receive {i : ℕ} {signal : String} {outcome : ShutdownOutcome}
      (hc : s.callers[i]? = some (.waiting signal)) (hcell : s.cell = .done outcome) :
      ShutdownStep a s (.receive i) (s.put i (.received outcome))
  | dropWaiting {i : ℕ} {signal : String} (hc : s.callers[i]? = some (.waiting signal)) :
      ShutdownStep a s (.drop i) (s.put i .gone)
  | dropLocking {i : ℕ} {signal : String} (hc : s.callers[i]? = some (.locking signal)) :
      ShutdownStep a s (.drop i) (({ s with cell := .empty } : ShutdownRun).put i .gone)
  | dropRunning {i : ℕ} {signal : String} {place : Place}
      (hc : s.callers[i]? = some (.running signal place)) (hawaits : place.awaits = true) :
      ShutdownStep a s (.drop i) (({ s with cell := .empty } : ShutdownRun).put i .unlocking)
  | unlock {i : ℕ} (hc : s.callers[i]? = some .unlocking) :
      ShutdownStep a s (.unlock i) (({ s with lock := none } : ShutdownRun).put i .gone)
  | next {i : ℕ} {signal : String} {s' : ShutdownRun}
      (hc : s.callers[i]? = some (.running signal .next)) (hnext : NextStep a s i signal s') :
      ShutdownStep a s (.next i) s'
  | hook {i : ℕ} {signal : String} {kind : HookKind} {g : Graph} {expired : Bool}
      {s' : ShutdownRun} (hc : s.callers[i]? = some (.running signal (.hooks kind g)))
      (hhook : HookStep a s i signal kind g s') : ShutdownStep a s (.hook i expired) s'
  | hookDone {i : ℕ} {signal : String} {kind : HookKind} {g : Graph} {owner : HookOwner}
      {outcome : Outcome} (hc : s.callers[i]? = some (.running signal (.hook kind g owner)))
      (houtcome : hookFailure outcome = none) :
      ShutdownStep a s (.hookEnd i outcome) (s.put i (.running signal (.hooks kind g)))
  | hookFailed {i : ℕ} {signal : String} {kind : HookKind} {g : Graph} {owner : HookOwner}
      {outcome : Outcome} {reason : FailureReason}
      (hc : s.callers[i]? = some (.running signal (.hook kind g owner)))
      (houtcome : hookFailure outcome = some reason) :
      ShutdownStep a s (.hookEnd i outcome)
        ((s.fail (.hook kind (ownerKey g owner) reason)).put i (.running signal (.hooks kind g)))
  | drainEnd {i abandoned terminal : ℕ} {signal : String}
      (hc : s.callers[i]? = some (.running signal .draining)) :
      ShutdownStep a s (.drainEnd i abandoned terminal)
        ((s.endDrain abandoned terminal).put i (.running signal .next))
  | closeEnd {i : ℕ} {ended : List (Option FailureReason)} {signal : String}
      (hc : s.callers[i]? = some (.running signal .closing)) :
      ShutdownStep a s (.closeEnd i ended)
        ((s.endClose (closeFailures s.servers ended)).put i (.running signal .next))
  | listen {servers : List TypeId} (hlistened : s.listened = false) :
      ShutdownStep a s (.listen servers) { s with servers := servers, listened := true }
  | refuse : ShutdownStep a s .refuse { s with terminalRefused := s.terminalRefused + 1 }

/-- A trigger changes nothing but itself. -/
theorem trigger_eq (s : ShutdownRun) (signal : String) (cause : Option ShutdownFailure) :
    s.trigger signal cause = { s with
      signal := (s.trigger signal cause).signal, cause := (s.trigger signal cause).cause } := by
  unfold trigger
  split <;> rfl

/-- A new caller does not run. -/
theorem running_of_call {waits : String}
    (h : (s.callers ++ [.waiting waits])[i]? = some (.running signal place)) :
    s.callers[i]? = some (.running signal place) :=
  (getElem?_concat_eq_some.mp h).resolve_right (nomatch ·.2)

theorem step_spec (h : s.step a x = some s') : ShutdownStep a s x s' := by
  cases x with simp only [step] at h
  | call signal cause =>
    cases h
    have hcall : ShutdownStep a s (.call signal cause) _ := .call
    rwa [show s.callers = (s.trigger signal cause).callers by rw [trigger_eq]] at hcall
  | start =>
    split at h <;> cases h
    exact .start ‹_› ‹_›
  | lock =>
    split at h <;> cases h
    exact .lock ‹_› ‹_›
  | receive =>
    split at h <;> cases h
    exact .receive ‹_› ‹_›
  | drop =>
    split at h
    case h_1 hc => cases h; exact .dropWaiting hc
    case h_2 hc => cases h; exact .dropLocking hc
    case h_3 hc =>
      split at h
      · rename_i hawaits
        cases h
        exact .dropRunning hc hawaits
      · cases h
    case h_4 => cases h
  | unlock =>
    split at h <;> cases h
    exact .unlock ‹_›
  | next =>
    split at h <;> cases h
    exact .next ‹_› (next_spec _ _ _ _)
  | hook =>
    split at h <;> cases h
    exact .hook ‹_› (hook_spec _ _ _ _ _ _ _)
  | hookEnd =>
    split at h
    case h_1 hc =>
      cases h
      split
      · rename_i houtcome
        exact .hookDone hc houtcome
      · rename_i houtcome
        exact .hookFailed hc houtcome
    case h_2 => cases h
  | drainEnd =>
    split at h <;> cases h
    exact .drainEnd ‹_›
  | closeEnd =>
    split at h <;> cases h
    exact .closeEnd ‹_›
  | listen =>
    split at h
    · cases h
    · rename_i hlistened
      cases h
      exact .listen (Bool.not_eq_true _ ▸ hlistened)
  | refuse =>
    cases h
    exact .refuse

/-! ## One runner, one outcome -/

/-- What a caller knows of the cell and of the lock. -/
def Knows (cell : OutcomeCell) (lock : Option ℕ) (i : ℕ) : Caller → Prop
  | .waiting _ => True
  | .locking _ => cell = .initializing i
  | .running _ _ => cell = .initializing i ∧ lock = some i
  | .unlocking => lock = some i
  | .received outcome => cell = .done outcome
  | .gone => True

/-- **Who has the cell and the lock.** -/
def Who (s : ShutdownRun) : Prop :=
  ∀ (i : ℕ) (c : Caller), s.callers[i]? = some c → Knows s.cell s.lock i c

theorem callers_put (hc : s.callers[i]? = some c) (c' : Caller) (j : ℕ) :
    (s.put i c').callers[j]? = if j = i then some c' else s.callers[j]? :=
  getElem?_set_eq_ite hc

section

variable (hs : s.Who) (s₁ : ShutdownRun) (hcallers : s₁.callers = s.callers)
  (hc : s.callers[i]? = some c)
include hs s₁ hcallers hc

/-- One caller moves; what the others know still holds. -/
theorem Who.put (hown : Knows s₁.cell s₁.lock i c')
    (hothers : ∀ (j : ℕ) (d : Caller), j ≠ i → Knows s.cell s.lock j d →
      Knows s₁.cell s₁.lock j d) : (s₁.put i c').Who := by
  intro j d hd
  rw [callers_put (hcallers ▸ hc)] at hd
  split at hd
  · rename_i hj
    subst hj
    cases hd
    exact hown
  · rename_i hj
    exact hothers j d hj (hs j d (hcallers ▸ hd))

/-- The same where the cell and the lock do not change. -/
theorem Who.put_same (hcell : s₁.cell = s.cell) (hlock : s₁.lock = s.lock)
    (hown : Knows s.cell s.lock i c') : (s₁.put i c').Who := by
  refine hs.put s₁ hcallers hc ?_ fun j d _ hknows => ?_
  · rwa [hcell, hlock]
  · rwa [hcell, hlock]

end

/-- Letting go of the cell concerns the one who has it alone. -/
theorem Knows.release (hcell : cell = .initializing i) (hj : j ≠ i) (h : Knows cell lock j d)
    (cell' : OutcomeCell) : Knows cell' lock j d := by
  subst hcell
  cases d with
  | waiting | gone => trivial
  | locking => exact absurd (OutcomeCell.initializing.inj h) (Ne.symm hj)
  | running => exact absurd (OutcomeCell.initializing.inj h.1) (Ne.symm hj)
  | unlocking => exact h
  | received => cases h

/-- Taking an empty cell concerns nobody else. -/
theorem Knows.take (h : Knows .empty lock j d) (cell : OutcomeCell) : Knows cell lock j d := by
  cases d with
  | waiting | gone => trivial
  | locking | received => cases h
  | running => cases h.1
  | unlocking => exact h

/-- So with the lock. -/
theorem Knows.unlock (hlock : lock = some i ∨ lock = none) (hj : j ≠ i) (h : Knows cell lock j d)
    (lock' : Option ℕ) : Knows cell lock' j d := by
  have hne : lock ≠ some j := by
    rcases hlock with rfl | rfl
    · exact fun h => hj (some.inj h).symm
    · exact nofun
  cases d with
  | waiting | gone => trivial
  | locking | received => exact h
  | running => exact absurd h.2 hne
  | unlocking => exact absurd h hne

/-- A caller stands at such a place, if it runs. -/
def Stands (Q : Place → Prop) : Caller → Prop
  | .running _ place => Q place
  | _ => True

section Stands

variable {Q : Place → Prop} {j : ℕ} {signal' : String} {place' : Place} {s₁ : ShutdownRun}
  (hcallers : s₁.callers = s.callers)
include hcallers

/-- One caller moves. -/
theorem stands_put (hold : j ≠ i → s.callers[j]? = some (.running signal' place') → Q place')
    (hc : s.callers[i]? = some c) (hown : Stands Q c')
    (hj : (s₁.put i c').callers[j]? = some (.running signal' place')) : Q place' := by
  rw [callers_put (hcallers ▸ hc)] at hj
  split at hj
  · cases hj
    exact hown
  · rename_i hne
    rw [hcallers] at hj
    exact hold hne hj

variable (hs : s.Who) (hc : s.callers[i]? = some (.running signal place))
include hs hc

omit hcallers in
/-- **There is no other runner.** -/
theorem Who.only (hj : s.callers[j]? = some (.running signal' place')) : j = i := by
  have hlock := (hs i _ hc).2
  rw [(hs j _ hj).2] at hlock
  exact some.inj hlock

/-- Where the runner moves, it alone has a place. -/
theorem Who.stands (hown : Stands Q c')
    (hj : (s₁.put i c').callers[j]? = some (.running signal' place')) : Q place' :=
  stands_put hcallers (fun hne hj => absurd (hs.only hc hj) hne) hc hown hj

/-- The runner stays where it is. -/
theorem Who.stays (hown : Q place) (hj : s₁.callers[j]? = some (.running signal' place')) :
    Q place' := by
  rw [hcallers] at hj
  obtain rfl := hs.only hc hj
  rw [hc] at hj
  cases hj
  exact hown

end Stands

theorem Who.call (hs : s.Who) (signal : String) (cause : Option ShutdownFailure) (c : String) :
    ({ s.trigger signal cause with callers := s.callers ++ [.waiting c] } : ShutdownRun).Who := by
  intro i d hd
  show Knows (s.trigger signal cause).cell (s.trigger signal cause).lock i d
  rw [trigger_eq]
  rw [show ({ s.trigger signal cause with callers := s.callers ++ [.waiting c] } :
    ShutdownRun).callers[i]? = (s.callers ++ [Caller.waiting c])[i]? from rfl,
    getElem?_append] at hd
  split at hd
  · exact hs i d hd
  · cases mem_singleton.mp (mem_of_getElem? hd)
    trivial

theorem Who.next (hs : s.Who) (hc : s.callers[i]? = some (.running signal .next))
    (h : NextStep a s i signal s') : s'.Who := by
  have hknows := hs i _ hc
  cases h with
  | begin => exact hs.put_same s.begin rfl hc rfl rfl hknows
  | enterHooks => exact hs.put_same (s.enterHooks a.graph _) rfl hc rfl rfl hknows
  | drain =>
    refine hs.put_same s.startDrain ?_ hc ?_ ?_ hknows
    all_goals
      unfold startDrain
      split <;> rfl
  | closed => exact hs.put_same (s.endClose []) rfl hc rfl rfl hknows
  | close => exact hs.put_same s.startClose rfl hc rfl rfl hknows
  | finish =>
    refine hs.put _ rfl hc rfl fun j d hj h => ?_
    exact (h.release hknows.1 hj _).unlock (.inl hknows.2) hj _

theorem Who.hook (hs : s.Who) (hc : s.callers[i]? = some (.running signal (.hooks kind g)))
    (h : HookStep a s i signal kind g s') : s'.Who := by
  have hknows := hs i _ hc
  cases h with
  | leave => exact hs.put_same s.leaveHooks rfl hc rfl rfl hknows
  | none | skip | unbuilt => exact hs
  | start => exact hs.put_same _ rfl hc rfl rfl hknows
  | panic => exact hs.put _ rfl hc hknows.2 fun j d hj h => h.release hknows.1 hj _

/-- **Every step keeps it.** -/
theorem Who.step (hs : s.Who) (h : s.step a x = some s') : s'.Who := by
  cases step_spec h with
  | call => exact hs.call _ _ _
  | start hc hcell =>
    refine hs.put _ rfl hc rfl fun j d _ h => ?_
    rw [hcell] at h
    exact h.take _
  | lock hc hlock =>
    exact hs.put _ rfl hc ⟨hs _ _ hc, rfl⟩ fun j d hj h => h.unlock (.inr hlock) hj _
  | receive hc hcell => exact hs.put_same s rfl hc rfl rfl hcell
  | dropWaiting hc => exact hs.put_same s rfl hc rfl rfl trivial
  | dropLocking hc => exact hs.put _ rfl hc trivial fun j d hj h => h.release (hs _ _ hc) hj _
  | dropRunning hc =>
    exact hs.put _ rfl hc (hs _ _ hc).2 fun j d hj h => h.release (hs _ _ hc).1 hj _
  | unlock hc => exact hs.put _ rfl hc trivial fun j d hj h => h.unlock (.inl (hs _ _ hc)) hj _
  | next hc hnext => exact hs.next hc hnext
  | hook hc hhook => exact hs.hook hc hhook
  | hookDone hc =>
    have hknows := hs _ _ hc
    exact hs.put_same s rfl hc rfl rfl hknows
  | hookFailed hc =>
    have hknows := hs _ _ hc
    exact hs.put_same (s.fail _) rfl hc rfl rfl hknows
  | drainEnd hc =>
    have hknows := hs _ _ hc
    exact hs.put_same (s.endDrain _ _) rfl hc rfl rfl hknows
  | closeEnd hc =>
    have hknows := hs _ _ hc
    exact hs.put_same (s.endClose _) rfl hc rfl rfl hknows
  | listen | refuse => exact hs

/-! ## What is done, and what is left -/

/-- The failures that are recorded so far: in the end, those of the outcome. -/
def recorded (s : ShutdownRun) : List ShutdownFailure :=
  match s.cell with
  | .done outcome => outcome.failures
  | _ => s.progress.failures

/-- A hook was started, or is recorded as skipped, or its singleton was never built. -/
def Accounted (a : App) (s : ShutdownRun) (kind : HookKind) (entry : HookOwner × ℕ) : Prop :=
  .start kind entry.1 entry.2 ∈ s.log ∨
    .hook kind (ownerKey a.graph entry.1) .skipped ∈ s.recorded ∨ runsHook a entry.1 = false

/-- Why an event of the log does not happen again. -/
def Past (s : ShutdownRun) : ShutdownEvent → Prop
  | .start kind owner position =>
    kind.shutdownRank < s.progress.stage.rank ∨ s.progress.stage.kind = some kind ∧
      ∃ plan, s.progress.plan = some plan ∧ (owner, position) ∈ plan.take s.progress.cursor
  | .drain _ =>
    s.progress.acceptingStopped = true ∧ ShutdownStage.drain.rank ≤ s.progress.stage.rank
  | .close _ =>
    ShutdownStage.close.rank < s.progress.stage.rank ∨
      s.progress.stage = .close ∧ s.listened = true ∧ s.servers.length ≤ s.progress.cursor

/-- **How far the sequence is.** -/
structure Work (a : App) (s : ShutdownRun) : Prop where
  plan : ∀ plan, s.progress.plan = some plan →
    ∃ kind, s.progress.stage.kind = some kind ∧ plan = shutdownPlan a.graph kind
  cursor : s.progress.plan = none → s.progress.stage ≠ .close → s.progress.cursor = 0
  past : ∀ e ∈ s.log, s.Past e
  nodup : s.log.Nodup
  sorted : s.log.Pairwise fun e e' => e.rank ≤ e'.rank
  listened : s.servers ≠ [] → s.listened = true
  done : ∀ stage kind, ShutdownStage.kind stage = some kind → stage.rank < s.progress.stage.rank →
    ∀ entry ∈ shutdownPlan a.graph kind, s.Accounted a kind entry
  current : ∀ kind plan, s.progress.stage.kind = some kind → s.progress.plan = some plan →
    ∀ entry ∈ plan.take s.progress.cursor, s.Accounted a kind entry
  panicked : s.panicked = false

theorem shutdownRank_of_kind (h : stage.kind = some kind) : kind.shutdownRank = stage.rank := by
  cases stage <;> cases h <;> rfl

theorem rank_after (h : stage ≠ .done) : stage.after.rank = stage.rank + 1 := by
  cases stage with
  | done => exact absurd rfl h
  | _ => rfl

theorem rank_injective {stage' : ShutdownStage} (h : stage.rank = stage'.rank) :
    stage = stage' := by
  cases stage <;> cases stage' <;> first | rfl | cases h

theorem Accounted.mono (h : s.Accounted a kind entry) (hlog : ∀ e ∈ s.log, e ∈ s'.log)
    (hrecorded : ∀ f ∈ s.recorded, f ∈ s'.recorded) : s'.Accounted a kind entry :=
  h.imp (hlog _) (Or.imp_left (hrecorded _))

theorem Past.rank_le (h : s.Past e) : e.rank ≤ s.progress.stage.rank := by
  cases e with
  | start =>
    rcases h with hlt | ⟨hkind, -⟩
    · exact hlt.le
    · exact (shutdownRank_of_kind hkind).le
  | drain => exact h.2
  | close =>
    rcases h with hlt | ⟨hstage, -⟩
    · exact hlt.le
    · rw [hstage]
      exact Nat.le_refl _

/-- A later stage. -/
theorem Past.advance (h : s.Past e) (hrank : s.progress.stage.rank < s'.progress.stage.rank)
    (hstopped : s'.progress.acceptingStopped = s.progress.acceptingStopped) : s'.Past e := by
  have hle := h.rank_le
  cases e with
  | start | close => exact .inl (hle.trans_lt hrank)
  | drain => exact ⟨hstopped.trans h.1, h.2.trans hrank.le⟩

theorem Work.init (a : App) : Work a {} where
  plan _ h := by cases h
  cursor _ _ := rfl
  past e h := by cases h
  nodup := nodup_nil
  sorted := List.Pairwise.nil
  listened h := absurd rfl h
  done _ _ _ h := absurd h (Nat.not_lt_zero _)
  current _ _ h := by cases h
  panicked := rfl

/-- What the sequence does not see. -/
theorem Work.same (hs : Work a s)
    (hprogress : s'.progress = { s.progress with failures := s'.progress.failures })
    (hlog : s'.log = s.log) (hservers : s'.servers = s.servers)
    (hlistened : s'.listened = s.listened) (hpanicked : s'.panicked = s.panicked)
    (hrecorded : ∀ f ∈ s.recorded, f ∈ s'.recorded) : Work a s' := by
  have hstage : s'.progress.stage = s.progress.stage := by rw [hprogress]
  have hplan : s'.progress.plan = s.progress.plan := by rw [hprogress]
  have hcursor : s'.progress.cursor = s.progress.cursor := by rw [hprogress]
  have hstopped : s'.progress.acceptingStopped = s.progress.acceptingStopped := by rw [hprogress]
  have hpast : ∀ e, s'.Past e ↔ s.Past e := by
    intro e
    unfold Past
    rw [hstage, hplan, hcursor, hstopped, hservers, hlistened]
  have hlater : ∀ e ∈ s.log, e ∈ s'.log := by rw [hlog]; exact fun _ h => h
  refine ⟨?_, ?_, ?_, ?_, ?_, ?_, ?_, ?_, hpanicked.trans hs.panicked⟩
  · rw [hstage, hplan]
    exact hs.plan
  · rw [hstage, hplan, hcursor]
    exact hs.cursor
  · rw [hlog]
    exact fun e he => (hpast e).mpr (hs.past e he)
  · rw [hlog]
    exact hs.nodup
  · rw [hlog]
    exact hs.sorted
  · rw [hservers, hlistened]
    exact hs.listened
  · rw [hstage]
    exact fun stage kind hkind hlt entry hentry =>
      (hs.done stage kind hkind hlt entry hentry).mono hlater hrecorded
  · rw [hstage, hplan, hcursor]
    exact fun kind plan hkind hplan entry hentry =>
      (hs.current kind plan hkind hplan entry hentry).mono hlater hrecorded

/-- **The next stage**, once everything of this one is accounted for. -/
theorem Work.advance (hs : Work a s) (hstage : s'.progress.stage = s.progress.stage.after)
    (hnotDone : s.progress.stage ≠ .done) (hplan : s'.progress.plan = none)
    (hcursor : s'.progress.cursor = 0)
    (hstopped : s'.progress.acceptingStopped = s.progress.acceptingStopped)
    (hlog : s'.log = s.log) (hlistened : s'.servers ≠ [] → s'.listened = true)
    (hpanicked : s'.panicked = s.panicked) (hrecorded : ∀ f ∈ s.recorded, f ∈ s'.recorded)
    (hdone : ∀ kind, s.progress.stage.kind = some kind →
      ∀ entry ∈ shutdownPlan a.graph kind, s.Accounted a kind entry) : Work a s' := by
  have hrank : s'.progress.stage.rank = s.progress.stage.rank + 1 := by
    rw [hstage, rank_after hnotDone]
  have hlater : ∀ e ∈ s.log, e ∈ s'.log := by rw [hlog]; exact fun _ h => h
  refine ⟨?_, fun _ _ => hcursor, ?_, ?_, ?_, hlistened, ?_, ?_, hpanicked.trans hs.panicked⟩
  · intro plan h
    rw [hplan] at h
    cases h
  · rw [hlog]
    exact fun e he => (hs.past e he).advance (by rw [hrank]; exact Nat.lt_succ_self _) hstopped
  · rw [hlog]
    exact hs.nodup
  · rw [hlog]
    exact hs.sorted
  · intro stage kind hkind hlt entry hentry
    refine Accounted.mono ?_ hlater hrecorded
    rw [hrank] at hlt
    rcases Nat.lt_succ_iff_lt_or_eq.mp hlt with hlt | heq
    · exact hs.done stage kind hkind hlt entry hentry
    · rw [rank_injective heq] at hkind
      exact hdone kind hkind entry hentry
  · intro kind plan _ h
    rw [hplan] at h
    cases h

/-- More events of the stage, none of which happened before. -/
theorem Work.log_append (hs : Work a s) {new : List ShutdownEvent} (hnew : new.Nodup)
    (hfresh : ∀ e ∈ new, e.rank = s.progress.stage.rank ∧ e ∉ s.log) :
    (s.log ++ new).Nodup ∧ (s.log ++ new).Pairwise fun e e' => e.rank ≤ e'.rank := by
  rw [nodup_append, pairwise_append]
  refine ⟨⟨hs.nodup, hnew, fun e he e' he' heq => ?_⟩, hs.sorted, ?_, fun e he e' he' => ?_⟩
  · exact (hfresh e' he').2 (heq ▸ he)
  · refine List.Pairwise.imp_of_mem (fun {e e'} he he' _ => ?_) hnew
    exact ((hfresh e he).1.trans (hfresh e' he').1.symm).le
  · rw [(hfresh e' he').1]
    exact (hs.past e he).rank_le

/-- **One hook of the plan further.** -/
theorem Work.count (hs : Work a s) (hg : a.graph.Wired) (hkind : s.progress.stage.kind = some kind)
    (hplan : s.progress.plan = some (shutdownPlan a.graph kind))
    (hentry : (shutdownPlan a.graph kind)[s.progress.cursor]? = some entry)
    (hprogress : s'.progress = { s.progress with
      cursor := s.progress.cursor + 1, failures := s'.progress.failures })
    {new : List ShutdownEvent} (hlog : s'.log = s.log ++ new)
    (hnew : new.Sublist [.start kind entry.1 entry.2]) (hservers : s'.servers = s.servers)
    (hlistened : s'.listened = s.listened) (hpanicked : s'.panicked = s.panicked)
    (hrecorded : ∀ f ∈ s.recorded, f ∈ s'.recorded) (hdone : s'.Accounted a kind entry) :
    Work a s' := by
  have hstage : s'.progress.stage = s.progress.stage := by rw [hprogress]
  have hplan' : s'.progress.plan = some (shutdownPlan a.graph kind) := by
    rw [hprogress]
    exact hplan
  have hcursor : s'.progress.cursor = s.progress.cursor + 1 := by rw [hprogress]
  have hstopped : s'.progress.acceptingStopped = s.progress.acceptingStopped := by rw [hprogress]
  have htake := take_succ_of_getElem? hentry
  have hrank := shutdownRank_of_kind hkind
  -- the entry was not started before
  have hfresh : ShutdownEvent.start kind entry.1 entry.2 ∉ s.log := by
    intro hmem
    rcases hs.past _ hmem with hlt | ⟨-, plan, hsome, hbefore⟩
    · rw [hrank] at hlt
      exact Nat.lt_irrefl _ hlt
    · rw [hplan] at hsome
      cases hsome
      exact (hg.shutdownPlan_nodup kind).notMem_take hentry hbefore
  have happend := hs.log_append (hnew.nodup (nodup_singleton _)) fun e he => by
    rw [mem_singleton.mp (hnew.subset he)]
    exact ⟨hrank, hfresh⟩
  rw [← hlog] at happend
  have hlater : ∀ e ∈ s.log, e ∈ s'.log := by
    rw [hlog]
    exact fun _ h => mem_append_left _ h
  have hpast : ∀ e ∈ s.log, s'.Past e := by
    intro e he
    have h := hs.past e he
    cases e with
    | start =>
      rcases h with hlt | ⟨hother, plan, hsome, hbefore⟩
      · exact .inl (by rw [hstage]; exact hlt)
      · rw [hplan] at hsome
        cases hsome
        refine .inr ⟨by rw [hstage]; exact hother, _, hplan', ?_⟩
        rw [hcursor, htake]
        exact mem_append_left _ hbefore
    | drain => exact ⟨hstopped.trans h.1, by rw [hstage]; exact h.2⟩
    | close =>
      rcases h with hlt | ⟨hclose, -⟩
      · exact .inl (by rw [hstage]; exact hlt)
      · rw [hclose] at hkind
        cases hkind
  have hnow : s'.Past (.start kind entry.1 entry.2) := by
    refine .inr ⟨by rw [hstage]; exact hkind, _, hplan', ?_⟩
    rw [hcursor, htake]
    exact mem_concat_self
  refine ⟨?_, ?_, ?_, happend.1, happend.2, ?_, ?_, ?_, hpanicked.trans hs.panicked⟩
  · intro plan hsome
    rw [hplan'] at hsome
    cases hsome
    exact ⟨kind, by rw [hstage]; exact hkind, rfl⟩
  · intro hnone
    rw [hplan'] at hnone
    cases hnone
  · intro e he
    rw [hlog] at he
    rcases mem_append.mp he with he | he
    · exact hpast e he
    · rw [mem_singleton.mp (hnew.subset he)]
      exact hnow
  · rw [hservers, hlistened]
    exact hs.listened
  · intro stage other hother hlt e he
    rw [hstage] at hlt
    exact (hs.done stage other hother hlt e he).mono hlater hrecorded
  · intro other plan hother hsome e he
    rw [hstage, hkind] at hother
    cases hother
    rw [hplan'] at hsome
    cases hsome
    rw [hcursor, htake] at he
    rcases mem_snoc.mp he with he | rfl
    · exact (hs.current kind _ hkind hplan e he).mono hlater hrecorded
    · exact hdone

/-- What the place of the runner says of the sequence. -/
def Fits (a : App) (p : Progress) : Place → Prop
  | .next => True
  | .hooks kind g | .hook kind g _ =>
    g = a.graph ∧ p.stage.kind = some kind ∧ p.plan = some (shutdownPlan a.graph kind)
  | .draining => p.stage = .drain
  | .closing => p.stage = .close

/-- **The invariant**: who runs, how far the sequence is, and that the runner's place
fits it. -/
structure Inv (a : App) (s : ShutdownRun) : Prop where
  who : s.Who
  work : s.Work a
  fits : ∀ (i : ℕ) (signal : String) (place : Place),
    s.callers[i]? = some (.running signal place) → Fits a s.progress place

theorem Inv.init (a : App) : Inv a {} where
  who i c h := by simp at h
  work := .init a
  fits i _ _ h := by simp at h

section

variable (hs : s.Inv a) (s₁ : ShutdownRun) (hcallers : s₁.callers = s.callers)
include hs s₁ hcallers

/-- **A step of the runner**: there is no other. -/
theorem Inv.runs (hc : s.callers[i]? = some (.running signal place)) (hwho : (s₁.put i c').Who)
    (hwork : s₁.Work a) (hfits : Stands (Fits a s₁.progress) c') : (s₁.put i c').Inv a where
  who := hwho
  work := hwork.same rfl rfl rfl rfl rfl fun _ h => h
  fits _ _ _ hj := hs.who.stands hcallers hc hfits hj

/-- A step that is not the runner's. -/
theorem Inv.moves (hc : s.callers[i]? = some c) (hwho : (s₁.put i c').Who)
    (hprogress : s₁.progress = s.progress) (hwork : s₁.Work a)
    (hfits : Stands (Fits a s.progress) c') : (s₁.put i c').Inv a where
  who := hwho
  work := hwork.same rfl rfl rfl rfl rfl fun _ h => h
  fits _ _ place' hj := by
    show Fits a s₁.progress place'
    rw [hprogress]
    exact stands_put hcallers (fun _ => hs.fits _ _ _) hc hfits hj

end

/-- While a sequence runs, or before, the failures are in `Progress`. -/
theorem recorded_eq (hcell : s.cell = cell) (hdone : ∀ o, cell ≠ .done o) :
    s.recorded = s.progress.failures := by
  unfold recorded
  rw [hcell]
  cases cell with
  | done o => exact absurd rfl (hdone o)
  | _ => rfl

theorem recorded_mono (hcell : s'.cell = s.cell)
    (hfailures : ∀ f ∈ s.progress.failures, f ∈ s'.progress.failures) :
    ∀ f ∈ s.recorded, f ∈ s'.recorded := by
  unfold recorded
  rw [hcell]
  cases s.cell with
  | done => exact fun _ h => h
  | _ => exact hfailures

theorem Knows.recorded (hs : s.Who) (hc : s.callers[i]? = some (.running signal place)) :
    s.recorded = s.progress.failures :=
  recorded_eq (hs i _ hc).1 nofun

section Steps

variable (hs : s.Inv a) {i : ℕ} {signal : String} {kind : HookKind}
include hs

theorem Inv.noPlan (hkind : s.progress.stage.kind = none) : s.progress.plan = none := by
  cases hplan : s.progress.plan with
  | none => rfl
  | some plan =>
    obtain ⟨kind, hsome, -⟩ := hs.work.plan plan hplan
    rw [hkind] at hsome
    cases hsome

/-- `startDrain` calls each server's `drain`, unless they were called. -/
theorem Inv.startDrain (hstage : s.progress.stage = .drain) : s.startDrain.Work a := by
  have hw := hs.work
  unfold ShutdownRun.startDrain
  split
  · exact hw
  · rename_i hstopped
    have hnew : ((range s.servers.length).map ShutdownEvent.drain).Nodup :=
      nodup_range.map fun _ _ h => ShutdownEvent.drain.inj h
    have happend := hw.log_append hnew fun e he => by
      obtain ⟨n, -, rfl⟩ := mem_map.mp he
      rw [hstage]
      exact ⟨rfl, fun hmem => hstopped (hw.past _ hmem).1⟩
    refine ⟨hw.plan, hw.cursor, fun e he => ?_, happend.1, happend.2, hw.listened, ?_, ?_,
      hw.panicked⟩
    · rcases mem_append.mp he with he | he
      · have h := hw.past e he
        cases e with
        | start | close => exact h
        | drain => exact ⟨rfl, h.2⟩
      · obtain ⟨n, -, rfl⟩ := mem_map.mp he
        exact ⟨rfl, by show _ ≤ s.progress.stage.rank; rw [hstage]⟩
    · exact fun stage kind hkind hlt entry hentry =>
        (hw.done stage kind hkind hlt entry hentry).mono (fun _ h => mem_append_left _ h)
          fun _ h => h
    · exact fun kind plan hkind hplan entry hentry =>
        (hw.current kind plan hkind hplan entry hentry).mono (fun _ h => mem_append_left _ h)
          fun _ h => h

/-- `startClose` calls each server's `close`. None was called before: the cursor would
say so. -/
theorem Inv.startClose (hstage : s.progress.stage = .close)
    (hcursor : s.progress.cursor < s.servers.length) : s.startClose.Work a := by
  have hw := hs.work
  have hlistened : s.listened = true :=
    hw.listened fun hnil => by rw [hnil] at hcursor; exact Nat.not_lt_zero _ hcursor
  have hplan : s.progress.plan = none := hs.noPlan (by rw [hstage]; rfl)
  have hnew : ((range s.servers.length).reverse.map ShutdownEvent.close).Nodup :=
    (nodup_reverse.mpr nodup_range).map fun _ _ h => ShutdownEvent.close.inj h
  have happend := hw.log_append hnew fun e he => by
    obtain ⟨n, -, rfl⟩ := mem_map.mp he
    refine ⟨by rw [hstage]; rfl, fun hmem => ?_⟩
    rcases hw.past _ hmem with hlt | ⟨-, -, hle⟩
    · rw [hstage] at hlt
      exact Nat.lt_irrefl _ hlt
    · exact absurd hcursor (Nat.not_lt.mpr hle)
  refine ⟨hw.plan, fun _ h => absurd hstage h, fun e he => ?_, happend.1, happend.2, hw.listened,
    ?_, fun kind plan _ h => ?_, hw.panicked⟩
  · rcases mem_append.mp he with he | he
    · have h := hw.past e he
      cases e with
      | start =>
        rcases h with hlt | ⟨hkind, -⟩
        · exact .inl hlt
        · rw [hstage] at hkind
          cases hkind
      | drain => exact h
      | close => exact .inr ⟨hstage, hlistened, Nat.le_refl _⟩
    · obtain ⟨n, -, rfl⟩ := mem_map.mp he
      exact .inr ⟨hstage, hlistened, Nat.le_refl _⟩
  · exact fun stage kind hkind hlt entry hentry =>
      (hw.done stage kind hkind hlt entry hentry).mono (fun _ h => mem_append_left _ h)
        fun _ h => h
  · exact absurd (hplan.symm.trans h) nofun

/-- A hook step is entered with its plan, or takes up the one that is there. -/
theorem Inv.enterHooks (hkind : s.progress.stage.kind = some kind) :
    (s.enterHooks a.graph kind).Work a ∧
      (s.enterHooks a.graph kind).progress.plan = some (shutdownPlan a.graph kind) := by
  have hw := hs.work
  have hclose : s.progress.stage ≠ .close := by
    intro hclose
    rw [hclose] at hkind
    cases hkind
  cases hplan : s.progress.plan with
  | some plan =>
    have hkept : (s.progress.plan <|> some (shutdownPlan a.graph kind)) = s.progress.plan := by
      rw [hplan]
      rfl
    have hprogress : (s.enterHooks a.graph kind).progress = s.progress := by
      show ({ s.progress with
        plan := s.progress.plan <|> some (shutdownPlan a.graph kind) } : Progress) = s.progress
      rw [hkept]
    obtain ⟨other, hother, rfl⟩ := hw.plan plan hplan
    rw [hkind] at hother
    cases hother
    refine ⟨hw.same hprogress rfl rfl rfl rfl (recorded_mono rfl ?_), hprogress ▸ hplan⟩
    exact fun _ h => h
  | none =>
    have hcursor := hw.cursor hplan hclose
    have hsome : (s.enterHooks a.graph kind).progress.plan = some (shutdownPlan a.graph kind) := by
      show (s.progress.plan <|> _) = _
      rw [hplan]
      rfl
    refine ⟨⟨fun plan h => ?_, fun h => ?_, fun e he => ?_, hw.nodup, hw.sorted, hw.listened,
      hw.done, fun other plan _ h entry hentry => ?_, hw.panicked⟩, hsome⟩
    · rw [hsome] at h
      cases h
      exact ⟨kind, hkind, rfl⟩
    · rw [hsome] at h
      cases h
    · have h := hw.past e he
      cases e with
      | start =>
        rcases h with hlt | ⟨-, plan, h, -⟩
        · exact .inl hlt
        · rw [hplan] at h
          cases h
      | drain | close => exact h
    · change entry ∈ plan.take s.progress.cursor at hentry
      rw [hcursor] at hentry
      cases hentry

/-- A hook step is left when its plan is through. -/
theorem Inv.leaveHooks (hkind : s.progress.stage.kind = some kind)
    (hplan : s.progress.plan = some (shutdownPlan a.graph kind))
    (hentry : (shutdownPlan a.graph kind)[s.progress.cursor]? = none) : s.leaveHooks.Work a := by
  have hw := hs.work
  refine hw.advance rfl ?_ rfl rfl rfl rfl hw.listened rfl (fun _ h => h) fun other hother => ?_
  · intro hdone
    rw [hdone] at hkind
    cases hkind
  · rw [hkind] at hother
    cases hother
    intro entry hmem
    refine hw.current kind _ hkind hplan entry ?_
    rwa [take_of_length_le (getElem?_eq_none_iff.mp hentry)]

theorem Inv.endDrain (hstage : s.progress.stage = .drain) (abandoned terminal : ℕ) :
    (s.endDrain abandoned terminal).Work a := by
  have hw := hs.work
  have hplan := hs.noPlan (by rw [hstage]; rfl)
  refine hw.advance rfl (by rw [hstage]; exact nofun) hplan ?_ rfl rfl hw.listened rfl ?_ ?_
  · exact hw.cursor hplan (by rw [hstage]; exact nofun)
  · exact recorded_mono rfl fun _ h => h
  · exact fun _ h => by rw [hstage] at h; cases h

theorem Inv.begin (hstage : s.progress.stage = .trigger) : s.begin.Work a := by
  have hw := hs.work
  have hplan := hs.noPlan (by rw [hstage]; rfl)
  refine hw.advance rfl (by rw [hstage]; exact nofun) hplan ?_ rfl rfl hw.listened rfl
    (recorded_mono rfl fun _ h => mem_append_left _ h) ?_
  · exact hw.cursor hplan (by rw [hstage]; exact nofun)
  · exact fun _ h => by rw [hstage] at h; cases h

theorem Inv.endClose (hstage : s.progress.stage = .close) (failures : List ShutdownFailure) :
    (s.endClose failures).Work a := by
  have hw := hs.work
  refine hw.advance rfl (by rw [hstage]; exact nofun) (hs.noPlan (by rw [hstage]; rfl)) rfl rfl rfl
    (fun h => absurd rfl h) rfl (recorded_mono rfl fun _ h => mem_append_left _ h) fun _ h => ?_
  rw [hstage] at h
  cases h

/-- **A step between two steps of the sequence.** -/
theorem Inv.next (hc : s.callers[i]? = some (.running signal .next))
    (h : NextStep a s i signal s') : s'.Inv a := by
  have hwho := hs.who.next hc h
  cases h with
  | begin hstage =>
    exact hs.runs s.begin rfl hc hwho (hs.begin hstage) trivial
  | enterHooks hkind =>
    refine hs.runs (s.enterHooks a.graph _) rfl hc hwho (hs.enterHooks hkind).1
      ⟨rfl, hkind, (hs.enterHooks hkind).2⟩
  | drain hstage =>
    refine hs.runs s.startDrain ?_ hc hwho (hs.startDrain hstage) ?_
    · unfold ShutdownRun.startDrain
      split <;> rfl
    · unfold ShutdownRun.startDrain
      split <;> exact hstage
  | closed hstage =>
    exact hs.runs (s.endClose []) rfl hc hwho (hs.endClose hstage []) trivial
  | close hstage hcursor =>
    refine hs.runs s.startClose rfl hc hwho (hs.startClose hstage hcursor) hstage
  | finish =>
    refine hs.runs _ rfl hc hwho ?_ trivial
    refine hs.work.same rfl rfl rfl rfl rfl fun f hf => ?_
    rwa [Knows.recorded hs.who hc] at hf

/-- **A step in a hook step.** -/
theorem Inv.hook (hg : a.graph.Wired) (hc : s.callers[i]? = some (.running signal (.hooks kind g)))
    (h : HookStep a s i signal kind g s') : s'.Inv a := by
  have hwho := hs.who.hook hc h
  obtain ⟨rfl, hkind, hplan⟩ := hs.fits i _ _ hc
  have hw := hs.work
  have hgetD : s.progress.plan.getD [] = shutdownPlan a.graph kind := by rw [hplan]; rfl
  -- a step that leaves the runner at its place
  have hstays : ∀ s₁ : ShutdownRun, s₁.callers = s.callers → s₁.Who → s₁.Work a →
      s₁.progress = { s.count.progress with failures := s₁.progress.failures } → s₁.Inv a := by
    intro s₁ hcallers hwho₁ hwork hprogress
    refine ⟨hwho₁, hwork, fun _ _ _ hj => hs.who.stays hcallers hc ?_ hj⟩
    rw [hprogress]
    exact ⟨rfl, hkind, hplan⟩
  cases h with
  | leave hentry =>
    rw [hgetD] at hentry
    exact hs.runs s.leaveHooks rfl hc hwho (hs.leaveHooks hkind hplan hentry) trivial
  | @none owner position hentry hhook =>
    rw [hgetD] at hentry
    obtain ⟨-, hook, hsome, -⟩ := hg.mem_shutdownPlan.mp (mem_of_getElem? hentry)
    rw [hhook] at hsome
    cases hsome
  | @skip owner position hentry =>
    rw [hgetD] at hentry
    refine hstays _ rfl hwho
      (hw.count hg hkind hplan hentry rfl (append_nil _).symm (nil_sublist _) rfl rfl rfl
      (recorded_mono rfl fun _ h => mem_append_left _ h) (.inr (.inl ?_))) rfl
    have hcell : (s.count.fail (.hook kind (ownerKey a.graph owner) .skipped)).cell =
      .initializing i := (hs.who i _ hc).1
    rw [recorded_eq hcell nofun]
    exact mem_concat_self
  | @start owner position hentry =>
    rw [hgetD] at hentry
    refine hs.runs _ rfl hc hwho (hw.count hg hkind hplan hentry rfl rfl (.refl _) rfl rfl rfl
      (recorded_mono rfl fun _ h => h) (.inl mem_concat_self)) ⟨rfl, hkind, hplan⟩
  | @unbuilt owner position hentry hbuilt =>
    rw [hgetD] at hentry
    exact hstays _ rfl hwho
      (hw.count hg hkind hplan hentry rfl (append_nil _).symm (nil_sublist _) rfl rfl rfl
      (recorded_mono rfl fun _ h => h) (.inr (.inr hbuilt))) rfl
  | @panic owner position hentry hholds =>
    rw [hgetD] at hentry
    have howns := (hg.mem_shutdownPlan.mp (mem_of_getElem? hentry)).1
    rw [hg.holds_of_owns howns] at hholds
    cases hholds

/-- A new caller waits. -/
theorem Inv.call (c : String) (cause : Option ShutdownFailure) (waits : String) :
    ({ s.trigger c cause with callers := s.callers ++ [.waiting waits] } : ShutdownRun).Inv a := by
  refine ⟨hs.who.call c cause waits, ?_, fun j signal' place' hj => ?_⟩
  · rw [trigger_eq]
    exact hs.work.same rfl rfl rfl rfl rfl fun _ h => h
  · rw [trigger_eq]
    exact hs.fits j signal' place' (running_of_call hj)

/-- `listen` comes before any server has closed. -/
theorem Inv.listen (hlistened : s.listened = false) (servers : List TypeId) :
    ({ s with servers := servers, listened := true } : ShutdownRun).Inv a := by
  have hw := hs.work
  refine ⟨hs.who, ⟨hw.plan, hw.cursor, fun e he => ?_, hw.nodup, hw.sorted, fun _ => rfl, hw.done,
    hw.current, hw.panicked⟩, hs.fits⟩
  have h := hw.past e he
  cases e with
  | start | drain => exact h
  | close =>
    rcases h with hlt | ⟨-, hlater, -⟩
    · exact .inl hlt
    · rw [hlistened] at hlater
      cases hlater

/-- **Every step keeps the invariant.** -/
theorem Inv.step (hg : a.graph.Wired) {x : ShutdownAction} (h : s.step a x = some s') :
    s'.Inv a := by
  have hwho := hs.who.step h
  have hw := hs.work
  cases step_spec h with
  | call => exact hs.call _ _ _
  | start hc hcell =>
    refine hs.moves _ rfl hc hwho rfl (hw.same rfl rfl rfl rfl rfl fun f hf => ?_) trivial
    rwa [recorded_eq hcell nofun] at hf
  | lock hc =>
    exact hs.moves _ rfl hc hwho rfl (hw.same rfl rfl rfl rfl rfl fun _ h => h) trivial
  | receive hc | dropWaiting hc => exact hs.moves s rfl hc hwho rfl hw trivial
  | dropLocking hc =>
    refine hs.moves _ rfl hc hwho rfl (hw.same rfl rfl rfl rfl rfl fun f hf => ?_) trivial
    rwa [recorded_eq (hs.who _ _ hc) nofun] at hf
  | dropRunning hc =>
    refine hs.moves _ rfl hc hwho rfl (hw.same rfl rfl rfl rfl rfl fun f hf => ?_) trivial
    rwa [recorded_eq (hs.who _ _ hc).1 nofun] at hf
  | unlock hc =>
    exact hs.moves _ rfl hc hwho rfl (hw.same rfl rfl rfl rfl rfl fun _ h => h) trivial
  | next hc hnext => exact hs.next hc hnext
  | hook hc hhook => exact hs.hook hg hc hhook
  | hookDone hc =>
    have hfits := hs.fits _ _ _ hc
    exact hs.moves s rfl hc hwho rfl hw hfits
  | hookFailed hc =>
    have hfits := hs.fits _ _ _ hc
    exact hs.runs (s.fail _) rfl hc hwho (hw.same rfl rfl rfl rfl rfl
      (recorded_mono rfl fun _ h => mem_append_left _ h)) hfits
  | drainEnd hc =>
    exact hs.runs (s.endDrain _ _) rfl hc hwho (hs.endDrain (hs.fits _ _ _ hc) _ _) trivial
  | closeEnd hc =>
    exact hs.runs (s.endClose _) rfl hc hwho (hs.endClose (hs.fits _ _ _ hc) _) trivial
  | listen hlistened => exact hs.listen hlistened _
  | refuse => exact ⟨hwho, hw.same rfl rfl rfl rfl rfl fun _ h => h, hs.fits⟩

end Steps

/-- An outcome is made at the end of the sequence. -/
theorem finished_step (hs : s.Who) (hfinished : ∀ o, s.cell = .done o → s.progress.stage = .done)
    (h : s.step a x = some s') (o : ShutdownOutcome) (ho : s'.cell = .done o) :
    s'.progress.stage = .done := by
  cases step_spec h with
  | call =>
    rw [trigger_eq] at ho ⊢
    exact hfinished o ho
  | start | dropLocking | dropRunning => cases ho
  | next hc hnext =>
    have hcell := (hs _ _ hc).1
    cases hnext with
    | finish hstage => exact hstage
    | drain =>
      have hsame : s.startDrain.cell = s.cell := by unfold startDrain; split <;> rfl
      exact absurd (hcell.symm.trans (hsame.symm.trans ho)) nofun
    | _ => exact absurd (hcell.symm.trans ho) nofun
  | hook hc hhook =>
    have hcell := (hs _ _ hc).1
    cases hhook with
    | panic => cases ho
    | _ => exact absurd (hcell.symm.trans ho) nofun
  | hookFailed hc | drainEnd hc | closeEnd hc => exact absurd ((hs _ _ hc).1.symm.trans ho) nofun
  | _ => exact hfinished o ho

end ShutdownRun

section Runs

variable {a : App} (hg : a.graph.Wired) {t : List ShutdownAction} {s : ShutdownRun}
  (h : (shutdownMachine a).run t = some s)
include hg h

theorem shutdown_inv : s.Inv a :=
  Machine.invariant (ShutdownRun.Inv.init a) (fun _ _ _ hs hstep => hs.step hg hstep) h

theorem shutdown_finished (ho : s.cell = .done o) : s.progress.stage = .done := by
  refine Machine.run_induction (P := fun _ s => ∀ o, s.cell = .done o → s.progress.stage = .done)
    (fun o ho => by cases ho) ?_ h o ho
  intro t s x s' hrun ih hstep
  exact ShutdownRun.finished_step (shutdown_inv hg hrun).who ih hstep

end Runs

/-- A hook runs where its singleton, if it has one, was built: in an application whose
every load was kept, all hooks of the plans do. -/
theorem App.Complete.runsHook {a : App} (ha : a.Complete) (howns : a.graph.Owns owner) :
    ShutdownRun.runsHook a owner = true := by
  cases owner with
  | binding id => exact AList.lookup_isSome.mpr (ha id howns)
  | module => rfl

/-- **The shutdown survives its runners.** In any interleaving of `close` and `serve`
callers, whose futures may be dropped at any await: one of them runs the sequence at
a time; no hook is started twice, and no server's `drain` or `close` called twice;
the steps come in their order; and where a caller has received an outcome, so has
every other that received one, and every hook of every step was started or is
recorded in it as skipped.

A hook whose singleton was never built has nothing to run on. With every load kept
there is none. -/
theorem shutdown_survives_drops {kept : Bool} {a : App} (ha : a.Reachable kept)
    {t : List ShutdownAction} {s : ShutdownRun} (h : (shutdownMachine a).run t = some s) :
    (∀ (i j : ℕ) (signal signal' : String) (place place' : Place),
      s.callers[i]? = some (.running signal place) →
      s.callers[j]? = some (.running signal' place') → i = j) ∧
    s.log.Nodup ∧ (s.log.Pairwise fun e e' => e.rank ≤ e'.rank) ∧
    ∀ (i : ℕ) (o : ShutdownOutcome), s.callers[i]? = some (.received o) →
      (∀ (j : ℕ) (o' : ShutdownOutcome), s.callers[j]? = some (.received o') → o' = o) ∧
      ∀ (stage : ShutdownStage) (kind : HookKind), stage.kind = some kind →
        ∀ entry ∈ shutdownPlan a.graph kind,
          kept = true ∨ ShutdownRun.runsHook a entry.1 = true →
          .start kind entry.1 entry.2 ∈ s.log ∨
            .hook kind (ownerKey a.graph entry.1) .skipped ∈ o.failures := by
  have hg := ha.sound.wired
  have hs := shutdown_inv hg h
  refine ⟨fun _ _ _ _ _ _ hi hj => hs.who.only hj hi, hs.work.nodup, hs.work.sorted,
    fun i o hi => ⟨fun j o' hj => ?_, fun stage kind hkind entry hentry hruns => ?_⟩⟩
  · have hcell : s.cell = .done o := hs.who i _ hi
    rw [show s.cell = .done o' from hs.who j _ hj] at hcell
    exact OutcomeCell.done.inj hcell
  · have hcell : s.cell = .done o := hs.who i _ hi
    have hdone := shutdown_finished hg h hcell
    have hlt : stage.rank < s.progress.stage.rank := by
      rw [hdone]
      cases stage <;> first | cases hkind; done | decide
    have hruns : ShutdownRun.runsHook a entry.1 = true := by
      rcases hruns with rfl | hruns
      · exact ha.complete.runsHook (hg.mem_shutdownPlan.mp hentry).1
      · exact hruns
    have haccounted := hs.work.done stage kind hkind hlt entry hentry
    rw [ShutdownRun.Accounted, ShutdownRun.recorded, hcell, hruns] at haccounted
    exact haccounted.imp_right (Or.resolve_right · nofun)

/-- A `close` that is dropped in its first hook, and another that goes on from there:
the destroy step finds the cap expired. -/
def resumedClose : List ShutdownAction :=
  [.call "first" none, .call "second" none, .start 0, .lock 0, .next 0, .next 0, .hook 0 false,
    .drop 0, .start 1, .unlock 0, .lock 1, .next 1, .hook 1 false, .hookEnd 1 (.done 0),
    .hook 1 false, .hookEnd 1 .panicked, .hook 1 false, .next 1, .drainEnd 1 2 0, .next 1,
    .hook 1 true, .hook 1 true, .hook 1 true, .hook 1 true, .next 1, .next 1, .hook 1 false,
    .hookEnd 1 (.done 0), .hook 1 false, .hookEnd 1 (.done 0), .hook 1 false, .hookEnd 1 (.done 0),
    .hook 1 false, .next 1]

/-- The failures of `resumedClose`. -/
def resumedFailures : List ShutdownFailure :=
  [.hook .beforeApplicationShutdown ⟨⟨1, unitType⟩, .single⟩ .panicked,
    .hook .onModuleDestroy ⟨⟨100, unitType⟩, .single⟩ .skipped,
    .hook .onModuleDestroy ⟨⟨2, unitType⟩, .single⟩ .skipped,
    .hook .onModuleDestroy ⟨⟨1, unitType⟩, .single⟩ .skipped]

theorem shutdown_survives_drops_resumed :
    ∃ s, (shutdownMachine hookedApp).run resumedClose = some s ∧
      s.callers[1]? = some (.received ⟨"first", 2, 0, resumedFailures⟩) ∧
      ∀ entry ∈ shutdownPlan hookedApp.graph .beforeApplicationShutdown,
        .start .beforeApplicationShutdown entry.1 entry.2 ∈ s.log ∨
          .hook .beforeApplicationShutdown (ownerKey hookedApp.graph entry.1) .skipped ∈
            resumedFailures := by
  have hrun : (((shutdownMachine hookedApp).run resumedClose).bind fun s =>
      s.callers[1]?.bind Caller.outcome) = some ⟨"first", 2, 0, resumedFailures⟩ := by
    decide +kernel
  obtain ⟨s, hs, hcaller⟩ := bind_eq_some_iff.mp hrun
  obtain ⟨c, hc, ho⟩ := bind_eq_some_iff.mp hcaller
  rw [Caller.eq_received ho] at hc
  have h := ((shutdown_survives_drops (hookedApp_reachable true) hs).2.2.2 1 _ hc).2
  exact ⟨s, hs, hc, fun entry hentry => h .beforeShutdown _ rfl entry hentry (.inl rfl)⟩

/-- The sample after a load that was dropped before the last singleton was built. -/
def halfApp : App := (hookedLoading (droppedFrom 12) hookedApp).2

/-- A hook step of that application: the second hook of the plan has no instance to run on. -/
def halfHooks : List ShutdownAction :=
  [.hook 0 false, .hookEnd 0 (.done 0), .hook 0 false, .hook 0 false, .hookEnd 0 (.done 0),
    .hook 0 false, .hookEnd 0 (.done 0), .hook 0 false, .hookEnd 0 (.done 0), .hook 0 false,
    .hookEnd 0 (.done 0), .hook 0 false]

/-- Its close, with nothing dropped and no cap. -/
def halfClose : List ShutdownAction :=
  [.call "stop" none, .start 0, .lock 0, .next 0, .next 0] ++ halfHooks ++
    [.next 0, .drainEnd 0 0 0, .next 0] ++ halfHooks ++ [.next 0, .next 0] ++ halfHooks ++ [.next 0]

/-- **A hook that is passed over**: the outcome is an `Ok`, and the hook of the singleton that was
never built was neither started nor recorded. -/
theorem unbuilt_hook_passed_over : halfApp.Reachable false ∧
    (.binding 3, 2) ∈ shutdownPlan halfApp.graph .beforeApplicationShutdown ∧
    ((shutdownMachine halfApp).run halfClose).any (fun s =>
      s.callers[0]?.any (·.outcome = some ⟨"stop", 0, 0, []⟩) &&
        .start .beforeApplicationShutdown (.binding 3) 2 ∉ s.log) = true :=
  ⟨.load (hookedApp_reachable false) _ _ _ _ _ nofun, by decide +kernel, by decide +kernel⟩

end Ulo
