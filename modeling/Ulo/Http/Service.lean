import Ulo.Http.Router

/-!
# The service: entries, upgrades and routes

A request that the service takes passes the unscoped entries of the stage, which may answer
it, rewrite it or pass it on; then an `Upgrade` request on an upgrade path goes to its handler
and any other is routed, to a route's handler or to a miss. The scoped entries stand between
routing and what it decided. A path with a dot segment or a backslash is refused before
anything runs, and again where an unscoped entry rewrote the path to one.

What runs is written down (`Served.events`), in order and with the request it was given. The
application's own code, its entries, handlers and error handlers, is the environment's to
choose: `Runnable.start` and `Code`.
-/

namespace Ulo.Http

/-- `Routing`. -/
inductive Routing
  | matched (route : Text) (handler : Who)
  | options (route : Text)
  | notFound
  | methodNotAllowed
  | unrouted

/-- **A request**, as the entries and routing have it. -/
structure Request (X : Type) where
  method : Method
  path : Text
  query : Option Text
  /-- whether it has an `Upgrade` header -/
  upgrade : Bool
  /-- whether its extensions hold the mark of a path outside the mount -/
  outside : Bool
  /-- its other headers and extensions, its body and its connection -/
  rest : X

/-- What an entry does with a request: it may pass a request on, having read of the body or not,
and change the answer on its way out. -/
inductive Entered (X R E : Type)
  | answers (response : R)
  | fails (error : E)
  | passes (req : Request X) (reads : Bool) (after : R → Except E R)

/-- An entry as a request runs it. -/
structure Runnable (X R E : Type) where
  /-- the paths that an unscoped entry skips -/
  exclude : List ScopePattern
  start : Request X → Entered X R E

def Runnable.skips {X R E : Type} (self : Runnable X R E) (path : Text) : Bool :=
  self.exclude.any (·.coversPath path)

/-- A matched route, as the handler's context has it. -/
structure MatchedRoute (γ : Type) where
  handler : MountedHandler γ
  pattern : Text
  params : PathParams
  bodyLimit : ℕ

/-- **What the application does**: its handlers, its upgrade handlers and its error handlers, and
what is rendered in their place. -/
structure Code (γ X R E : Type) where
  dispatch : MatchedRoute γ → Request X → R
  upgrade : ℕ → Request X → R
  /-- the error handlers, of the matched route or the global ones, given the request that the
  sub-step received -/
  recover : Option (MatchedRoute γ) → Request X → E → R
  noRoute : E
  methodNotAllowed : Method → String → E
  /-- `decorate_refusal` -/
  decorate : Request X → R → R
  dotSegment : R
  backslash : R
  /-- the 404 of a miss that the host may route again -/
  forwardable : R
  options : String → R
  /-- the refusals of a request that is not taken -/
  notListening : R
  shed : R
  draining : R

/-- A routing miss. -/
inductive Miss
  | notFound
  | methodNotAllowed (allow : String)
  | options (allow : String) (route : Text)

/-- What ran, or was decided. -/
inductive Event (γ X R E : Type)
  | unscoped (entry : Runnable X R E) (req : Request X)
  | scoped (entry : Runnable X R E) (req : Request X)
  | upgraded (taker : ℕ) (req : Request X)
  | routed (routing : Routing)
  | handled (route : MatchedRoute γ) (req : Request X)
  | missed (miss : Miss) (forwarded : Bool) (req : Request X)
  /-- a path refused before routing -/
  | refused (req : Request X)

/-- An answer, and what ran for it. -/
structure Served (γ X R E : Type) where
  events : List (Event γ X R E)
  response : R

section Run

variable {γ X R E : Type} (event : Runnable X R E → Request X → Event γ X R E) (fail : E → R)

/-- **`pre_dispatch::run`**: the entries that do not skip the path, each inside the ones before
it, and then `last`. -/
def runSteps : List (Runnable X R E) → Request X → Bool →
    (Request X → Bool → Served γ X R E) → Served γ X R E
  | [], req, read, last => last req read
  | step :: steps, req, read, last =>
    if step.skips req.path then runSteps steps req read last
    else
      match step.start req with
      | .answers response => ⟨[event step req], response⟩
      | .fails error => ⟨[event step req], fail error⟩
      | .passes req' reads after =>
        let served := runSteps steps req' (read || reads) last
        ⟨event step req :: served.events,
          match after served.response with
          | .ok response => response
          | .error error => fail error⟩

/-- The request as some entries leave it, and whether its body was read; `none` where one of them
answers it. -/
def passed : List (Runnable X R E) → Request X → Bool → Option (Request X × Bool)
  | [], req, read => some (req, read)
  | step :: steps, req, read =>
    if step.skips req.path then passed steps req read
    else
      match step.start req with
      | .answers _ | .fails _ => none
      | .passes req' reads _ => passed steps req' (read || reads)

/-- What some entries run, up to the one that answers. -/
def ranSteps : List (Runnable X R E) → Request X → List (Event γ X R E)
  | [], _ => []
  | step :: steps, req =>
    if step.skips req.path then ranSteps steps req
    else
      event step req ::
        match step.start req with
        | .answers _ | .fails _ => []
        | .passes req' _ _ => ranSteps steps req'

variable {event fail}

/-- **What runs after the entries** runs once, where none of them answered, with the request as
they leave it. -/
theorem events_runSteps (steps : List (Runnable X R E)) (req : Request X) (read : Bool)
    (last : Request X → Bool → Served γ X R E) :
    (runSteps event fail steps req read last).events = ranSteps event steps req ++
      match passed steps req read with
      | some (req', read') => (last req' read').events
      | none => [] := by
  induction steps generalizing req read with
  | nil => rfl
  | cons step steps ih =>
    simp only [runSteps, passed, ranSteps]
    split
    · exact ih req read
    · cases step.start req with
      | answers | fails => rfl
      | passes req' reads => exact congrArg (event step req :: ·) (ih req' (read || reads))

/-- Entries that all skip the path run nothing, and pass the request on as it is. -/
theorem ranSteps_eq_nil_iff {steps : List (Runnable X R E)} {req : Request X} :
    ranSteps event steps req = [] ↔ ∀ step ∈ steps, step.skips req.path = true := by
  induction steps with
  | nil => simp [ranSteps]
  | cons step steps ih =>
    simp only [ranSteps]
    split <;> simp_all

theorem passed_of_skips {steps : List (Runnable X R E)} {req : Request X} (read : Bool)
    (h : ∀ step ∈ steps, step.skips req.path = true) :
      passed steps req read = some (req, read) := by
  induction steps with
  | nil => rfl
  | cons step steps ih =>
    rw [passed, if_pos (h step List.mem_cons_self)]
    exact ih fun step hstep => h step (List.mem_cons_of_mem _ hstep)

theorem mem_ranSteps {steps : List (Runnable X R E)} {req : Request X} {e : Event γ X R E}
    (he : e ∈ ranSteps event steps req) : ∃ step req', e = event step req' := by
  induction steps generalizing req with
  | nil => cases he
  | cons step steps ih =>
    simp only [ranSteps] at he
    split at he
    · exact ih he
    · rcases List.mem_cons.mp he with rfl | he
      · exact ⟨step, req, rfl⟩
      · cases hstart : step.start req with
        | answers | fails =>
          rw [hstart] at he
          cases he
        | passes =>
          rw [hstart] at he
          exact ih he

end Run

/-- Every scoped entry, each checked against the path: what a request no route matched runs. -/
def Stage.unrouted {μ ρ : Type} (self : Stage μ ρ) : ScopedStage μ ρ where
  steps := self.covering.map (·.step)
  filters := self.covering.map fun entry => some entry.filter
  run := self.covering.map (·.runnable)

/-- **Everything a request reads.** -/
structure ServiceInner (γ μ X R E : Type) where
  router : Router γ μ (Runnable X R E)
  stage : Stage μ (Runnable X R E)
  /-- the unscoped entries, in order -/
  unscoped : List (Runnable X R E)
  upgrades : List Pattern
  /-- `Miss::Forward` -/
  forward : Bool
  code : Code γ X R E

namespace ServiceInner

variable {γ μ X R E : Type} (self : ServiceInner γ μ X R E)

/-- The 400 of a path refused before routing. -/
def malformed (path : Text) : Option R :=
  if hasDotSegment path then some self.code.dotSegment
  else if hasBackslash path then some self.code.backslash
  else none

/-- The upgrade path that takes an `Upgrade` request. -/
def taker (req : Request X) : Option ℕ :=
  if req.upgrade then self.upgrades.findIdx? fun path =>
    (path.matchesPath req.path).isSome else none

/-- Whether a route of the app matches the path, whatever the method, or an upgrade path matches
an `Upgrade` request's. -/
def routes (req : Request X) : Bool :=
  if req.outside then false
  else (self.taker req).isSome ||
    match self.router.route req.method req.path with
    | .notFound => false
    | _ => true

/-- `refused` -/
def refused (req : Request X) : Option (Served γ X R E) :=
  (self.malformed req.path).map fun bad =>
    if self.forward && !self.routes req then
      ⟨[.routed .notFound, .missed .notFound true req], self.code.forwardable⟩
    else ⟨[.refused req], self.code.decorate req bad⟩

/-- Whether the request has its original body unread and its original path, and misses are
forwarded. -/
def forwardable (original : Text) (req : Request X) (read : Bool) : Bool :=
  self.forward && !read && req.path == original

/-- `miss`: the error handlers, but for an `OPTIONS` the router answers. -/
def miss (req : Request X) : Miss → R
  | .options allow _ => self.code.options allow
  | .notFound => self.code.recover none req self.code.noRoute
  | .methodNotAllowed allow => self.code.recover none req
    (self.code.methodNotAllowed req.method allow)

/-- Whether a miss is handed back to the host. -/
def handsBack (original : Text) (req : Request X) (read : Bool) : Miss → Bool
  | .notFound => self.forwardable original req read
  | _ => false

/-- `unmatched` -/
def unmatched (original : Text) (miss : Miss) (req : Request X) (read : Bool) : Served γ X R E :=
  let forwards := self.handsBack original req read miss
  ⟨[.missed miss forwards req], if forwards then self.code.forwardable else self.miss req miss⟩

/-- `unrouted`: the scoped entries whose scope matches the path, then `last`. -/
def unrouted (req : Request X) (read : Bool) (last : Request X → Bool → Served γ X R E) :
    Served γ X R E :=
  runSteps .scoped (self.code.recover none req)
    (self.stage.unrouted.runnableFor req.path) req read last

/-- `found`: the scoped entries of the route, then its handler. -/
def found (target : RouteTarget γ μ (Runnable X R E)) (params : PathParams) (req : Request X)
    (read : Bool) : Served γ X R E :=
  let route : MatchedRoute γ := ⟨target.handler, target.pattern, params, target.bodyLimit⟩
  runSteps .scoped (self.code.recover (some route) req) (target.stage.runnableFor req.path) req read
    fun req _ => ⟨[.handled route req], self.code.dispatch route req⟩

/-- What the router decides, a path outside the mount being a miss. -/
def decided (req : Request X) : Routed γ μ (Runnable X R E) :=
  if req.outside then .notFound else self.router.route req.method req.path

/-- The scoped entries of a miss, unless the host may route it again. -/
def missed (original : Text) (miss : Miss) (req : Request X) (read : Bool) : Served γ X R E :=
  if req.outside || self.handsBack original req read miss then self.unmatched original miss req read
  else self.unrouted req read (self.unmatched original miss)

/-- One more event, before the others. -/
def noting (event : Event γ X R E) (served : Served γ X R E) : Served γ X R E :=
  { served with events := event :: served.events }

/-- **`route`**, for a request that arrived with the path `original`. -/
def route (original : Text) (req : Request X) (read : Bool) : Served γ X R E :=
  match self.malformed req.path with
  | some bad => ⟨[.refused req], bad⟩
  | none =>
    match self.taker req with
    | some taker =>
      self.unrouted req read fun req _ => ⟨[.upgraded taker req], self.code.upgrade taker req⟩
    | none =>
      match self.decided req with
      | .found target params _ =>
        noting (.routed (.matched target.route target.handler.who))
          (self.found target params req read)
      | .notFound => noting (.routed .notFound) (self.missed original .notFound req read)
      | .methodNotAllowed allow =>
        noting (.routed .methodNotAllowed) (self.missed original (.methodNotAllowed allow) req read)
      | .options allow route =>
        noting (.routed (.options route)) (self.missed original (.options allow route) req read)

/-- **`respond`**, once the request is admitted and its execution open. -/
def respond (req : Request X) : Served γ X R E :=
  (self.refused req).getD <|
    runSteps .unscoped (self.code.recover none req) self.unscoped req false (self.route req.path)

/-- The request as routing receives it, and whether its body was read. -/
def arrives (req : Request X) : Option (Request X × Bool) :=
  if (self.malformed req.path).isSome then none else passed self.unscoped req false

end ServiceInner

end Ulo.Http
