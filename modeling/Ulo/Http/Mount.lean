import Ulo.Http.Service

/-!
# An app under a mount prefix

An embedded app is mounted under a prefix of the host's. Where the host hands over the whole
path, `strip_prefix` removes the prefix and marks a request whose path is outside it. The mark
is in the request's extensions, and each step that could reach the app's own code has to look
at it for itself: the refusal of a malformed path does, routing does, the scoped entries of a
miss do. The step that hands an `Upgrade` request to its handler does not (`upgraded_outside`),
so that a path outside the prefix reaches an upgrade handler, and the scoped entries before
it, where it looks like one of the app's upgrade paths. Nothing else of the app is reached,
unless an unscoped entry drops the mark with the rest of the extensions; and even then only
where a route, or the scope of an entry, matches the path. `ServiceInner.Keeps` says when none of
this happens, and `respond_under_mount` that the app's code is spared exactly then.

The second half of the story needs no such condition: for a path under the prefix the app
answers what the same app without a prefix answers on the rest of the path. The prefix is in
the names of the routes and nowhere else (`Router.build_eq`).
-/

namespace Ulo.Http

open List

variable {γ μ X R E : Type} {req : Request X}

/-! ## Names of routes -/

/-- A route's name under a mount. -/
def mounted (mount route : Text) : Text := if mount = [] then route else Pattern.join mount route

section Rename

variable (f : Text → Text)

def RouteTarget.rename {ρ : Type} (t : RouteTarget γ μ ρ) : RouteTarget γ μ ρ :=
  { t with route := f t.route }

def Member.rename {ρ : Type} (m : Member γ μ ρ) : Member γ μ ρ :=
  { m with target := m.target.rename f }

def Group.rename {ρ : Type} (g : Group γ μ ρ) : Group γ μ ρ where
  pattern := g.pattern
  first := g.first.rename f
  more := g.more.map (·.rename f)

def Building.rename {ρ : Type} (b : Building γ μ ρ) : Building γ μ ρ :=
  { b with groups := b.groups.map (·.rename f) }

def RouteEntry.rename {ρ : Type} (e : RouteEntry γ μ ρ) : RouteEntry γ μ ρ :=
  { e with methods := e.methods.map fun (m, t) => (m, t.rename f), route := f e.route }

/-- **The table with other names for its routes.** -/
def Router.rename {ρ : Type} (r : Router γ μ ρ) : Router γ μ ρ := ⟨r.routes.map (·.rename f)⟩

def Routed.rename {ρ : Type} : Routed γ μ ρ → Routed γ μ ρ
  | .found target params headFromGet => .found (target.rename f) params headFromGet
  | .notFound => .notFound
  | .methodNotAllowed allow => .methodNotAllowed allow
  | .options allow route => .options allow (f route)

def Routing.rename : Routing → Routing
  | .matched route handler => .matched (f route) handler
  | .options route => .options (f route)
  | routing => routing

def Miss.rename : Miss → Miss
  | .options allow route => .options allow (f route)
  | miss => miss

def Event.rename : Event γ X R E → Event γ X R E
  | .routed routing => .routed (routing.rename f)
  | .missed miss forwarded req => .missed (miss.rename f) forwarded req
  | event => event

/-- The same answer, with other names for the routes. -/
def Served.rename (s : Served γ X R E) : Served γ X R E :=
  { s with events := s.events.map (·.rename f) }

end Rename

section Build

variable {ρ : Type} {f : Text → Text} {alphabet : Alphabet} {defaultBodyLimit : ℕ} {mount : Text}

/-- A group takes a route whatever its name is. -/
theorem addRoute_rename (pattern : Pattern) (member : Member γ μ ρ) (groups : List (Group γ μ ρ)) :
    addRoute pattern (member.rename f) (groups.map (·.rename f))
      = (addRoute pattern member groups).map (List.map (·.rename f)) := by
  induction groups with
  | nil => rfl
  | cons group groups ih =>
    have htargets : (group.rename f).targets = group.targets.map (·.rename f) := rfl
    have hfind : (group.rename f).targets.find? (·.method == (member.rename f).method)
        = (group.targets.find? (·.method == member.method)).map (·.rename f) := by
      rw [htargets, find?_map]
      rfl
    simp only [map_cons, addRoute]
    show (if group.pattern.conflicts pattern then _ else _) = _
    split
    · show (if group.pattern.raw ≠ pattern.raw then _ else _) = _
      split
      · rfl
      · rw [hfind]
        cases group.targets.find? (·.method == member.method) with
        | some => rfl
        | none => simp [Except.map, Group.rename]
    · rw [ih]
      cases addRoute pattern member groups with
      | error | ok => rfl

theorem Building.add_rename (b : Building γ μ ρ) (handler : MountedHandler γ) :
    Building.add alphabet defaultBodyLimit mount (b.rename (mounted mount)) handler
      = (Building.add alphabet defaultBodyLimit [] b handler).rename (mounted mount) := by
  unfold Building.add
  cases handler.parsed alphabet with
  | error => rfl
  | ok parsed =>
    obtain ⟨http, pattern⟩ := parsed
    have htarget : handler.target defaultBodyLimit mount http pattern (b.stage.scopedFor pattern).2
        = (handler.target defaultBodyLimit [] http pattern (b.stage.scopedFor pattern).2).rename
          (mounted mount) := rfl
    have hadd := addRoute_rename (f := mounted mount) pattern
      ⟨http.method, handler.target defaultBodyLimit [] http pattern (b.stage.scopedFor pattern).2,
        handler.who⟩ b.groups
    simp only [Building.rename, htarget]
    rw [Member.rename] at hadd
    rw [hadd]
    cases addRoute pattern _ b.groups with
    | error | ok => rfl

variable (alphabet defaultBodyLimit mount) in
theorem Building.foldl_rename (b : Building γ μ ρ) (handlers : List (MountedHandler γ)) :
    handlers.foldl (Building.add alphabet defaultBodyLimit mount) (b.rename (mounted mount))
      = (handlers.foldl (Building.add alphabet defaultBodyLimit []) b).rename (mounted mount) := by
  induction handlers generalizing b with
  | nil => rfl
  | cons handler handlers ih =>
    rw [foldl_cons, foldl_cons, Building.add_rename]
    exact ih _

theorem Group.entry_rename (g : Group γ μ ρ) : (g.rename f).entry = g.entry.rename f := by
  unfold Group.entry RouteEntry.rename
  simp [Group.rename, Group.targets, Member.rename, RouteTarget.rename, Function.comp_def]

/-- **A table under a mount** is the table without it, but for the names of its routes. -/
theorem Router.build_eq (stage : Stage μ ρ) (handlers : List (MountedHandler γ)) :
    Router.build alphabet defaultBodyLimit mount stage handlers
      = (Router.build alphabet defaultBodyLimit [] stage handlers).map
          (Router.rename (mounted mount)) := by
  have hfold := Building.foldl_rename alphabet defaultBodyLimit mount
    ({ stage := stage } : Building γ μ ρ) handlers
  rw [show ({ stage := stage } : Building γ μ ρ).rename
    (mounted mount) = { stage := stage } from rfl] at hfold
  unfold Router.build
  rw [hfold]
  generalize handlers.foldl (Building.add alphabet defaultBodyLimit []) { stage := stage } = b
  show (if (b.errors ++ b.zeros.map BuildFailure.zeroTimeout).isEmpty = true then _ else _) = _
  by_cases hclean : (b.errors ++ b.zeros.map BuildFailure.zeroTimeout).isEmpty = true
  · rw [if_pos hclean, if_pos hclean]
    refine congrArg (fun routes => Except.ok (Router.mk routes)) ?_
    have hentries : (b.rename (mounted mount)).groups.map Group.entry
        = (b.groups.map Group.entry).map (·.rename (mounted mount)) := by
      rw [Building.rename, map_map, map_map]
      exact map_congr_left fun g _ => g.entry_rename
    rw [hentries]
    exact (map_insertionSort (fun e e' : RouteEntry γ μ ρ =>
      e.pattern.precedence ≤ e'.pattern.precedence)
      (fun e e' : RouteEntry γ μ ρ => e.pattern.precedence ≤ e'.pattern.precedence)
      (·.rename (mounted mount)) _ fun _ _ _ _ => Iff.rfl).symm
  · rw [if_neg hclean, if_neg hclean]
    rfl

theorem RouteEntry.target_rename (e : RouteEntry γ μ ρ) (method : Method) :
    (e.rename f).target method = (e.target method).map (·.rename f) := by
  unfold RouteEntry.target RouteEntry.rename
  rw [find?_map]
  show ((e.methods.find? fun candidate => candidate.1 == method).map _).map _ = _
  cases e.methods.find? _ with
  | none | some => rfl

theorem RouteEntry.answer_rename (e : RouteEntry γ μ ρ) (method : Method) (params : PathParams) :
    (e.rename f).answer method params = (e.answer method params).rename f := by
  unfold RouteEntry.answer
  rw [target_rename, target_rename]
  cases e.target method with
  | some => rfl
  | none =>
    dsimp only [Option.map_none]
    by_cases hhead : method = .head
    · rw [if_pos hhead, if_pos hhead]
      cases e.target .get with
      | some => rfl
      | none =>
        dsimp only [Option.map_none]
        split <;> rfl
    · rw [if_neg hhead, if_neg hhead]
      dsimp only
      split <;> rfl

theorem routeFrom_rename (method : Method) (path : Text) (pieces : List (ℕ × Text))
    (entries : List (RouteEntry γ μ ρ)) :
    routeFrom method path pieces (entries.map (·.rename f))
      = (routeFrom method path pieces entries).rename f := by
  induction entries with
  | nil => rfl
  | cons entry entries ih =>
    simp only [map_cons, routeFrom]
    rw [show (entry.rename f).pattern = entry.pattern from rfl]
    cases entry.pattern.matchSplit path pieces with
    | none => exact ih
    | some params => exact entry.answer_rename method params

theorem Router.route_rename (r : Router γ μ ρ) (method : Method) (path : Text) :
    (r.rename f).route method path = (r.route method path).rename f :=
  routeFrom_rename _ _ _ _

end Build

/-! ## What runs does not depend on the names -/

section Respond

variable {f : Text → Text}

theorem rename_runSteps {event : Runnable X R E → Request X → Event γ X R E} {fail : E → R}
    (hevent : ∀ step req, (event step req).rename f = event step req)
    (steps : List (Runnable X R E)) (req : Request X) (read : Bool)
    (last : Request X → Bool → Served γ X R E) :
    (runSteps event fail steps req read last).rename f
      = runSteps event fail steps req read fun req read => (last req read).rename f := by
  induction steps generalizing req read with
  | nil => rfl
  | cons step steps ih =>
    simp only [runSteps]
    split
    · exact ih req read
    · cases step.start req with
      | answers | fails => simp only [Served.rename, map, hevent]
      | passes req' reads =>
        dsimp only
        rw [← ih req' (read || reads)]
        show Served.mk (map _ (event step req :: _)) _ = _
        rw [map_cons, hevent]
        rfl

namespace ServiceInner

variable {self : ServiceInner γ μ X R E}

/-- The service with other names for its routes. -/
def rename (self : ServiceInner γ μ X R E) (f : Text → Text) : ServiceInner γ μ X R E :=
  { self with router := self.router.rename f }

theorem routes_rename (req : Request X) : (self.rename f).routes req = self.routes req := by
  have hroute := self.router.route_rename (f := f) req.method req.path
  unfold routes
  rw [show (self.rename f).router.route req.method req.path
    = (self.router.route req.method req.path).rename f from hroute]
  cases self.router.route req.method req.path with
  | found | notFound | methodNotAllowed | options => rfl

theorem rename_refused (req : Request X) :
    (self.rename f).refused req = (self.refused req).map (·.rename f) := by
  unfold refused
  rw [routes_rename, Option.map_map]
  refine congrFun (congrArg _ (funext fun bad => ?_)) _
  show (if self.forward && !self.routes req then _ else _) = Served.rename f (if _ then _ else _)
  split <;> rfl

theorem rename_unmatched (original : Text) (miss : Miss) (req : Request X) (read : Bool) :
    (self.rename f).unmatched original (miss.rename f) req read
      = (self.unmatched original miss req read).rename f := by
  cases miss with
  | notFound | methodNotAllowed | options => rfl

theorem rename_missed (original : Text) (miss : Miss) (req : Request X) (read : Bool) :
    (self.rename f).missed original (miss.rename f) req read
      = (self.missed original miss req read).rename f := by
  have hunrouted : (self.rename f).unrouted req read
        ((self.rename f).unmatched original (miss.rename f))
      = (self.unrouted req read (self.unmatched original miss)).rename f := by
    unfold unrouted
    rw [rename_runSteps fun _ _ => rfl]
    refine congrArg _ (funext fun req => funext fun read => ?_)
    exact rename_unmatched original miss req read
  unfold missed
  rw [hunrouted, rename_unmatched]
  have hback : (self.rename f).handsBack original req read (miss.rename f)
      = self.handsBack original req read miss := by
    cases miss <;> rfl
  rw [hback]
  split <;> rfl

theorem rename_found (target : RouteTarget γ μ (Runnable X R E)) (params : PathParams)
    (req : Request X) (read : Bool) :
    (self.rename f).found (target.rename f) params req read
      = (self.found target params req read).rename f := by
  unfold found
  rw [rename_runSteps fun _ _ => rfl]
  rfl

theorem decided_rename (req : Request X) :
    (self.rename f).decided req = (self.decided req).rename f := by
  unfold decided
  split
  · rfl
  · exact self.router.route_rename req.method req.path

theorem rename_route (original : Text) (req : Request X) (read : Bool) :
    (self.rename f).route original req read = (self.route original req read).rename f := by
  unfold route
  rw [show (self.rename f).malformed req.path = self.malformed req.path from rfl]
  cases self.malformed req.path with
  | some => rfl
  | none =>
    rw [show (self.rename f).taker req = self.taker req from rfl]
    cases self.taker req with
    | some =>
      dsimp only [unrouted]
      rw [rename_runSteps fun _ _ => rfl]
      rfl
    | none =>
      dsimp only
      rw [decided_rename]
      cases self.decided req with
      | found target params =>
        exact congrArg (noting _) (rename_found target params req read)
      | notFound => exact congrArg (noting _) (rename_missed original .notFound req read)
      | methodNotAllowed allow =>
        exact congrArg (noting _) (rename_missed original (.methodNotAllowed allow) req read)
      | options allow route =>
        exact congrArg (noting _) (rename_missed original (.options allow route) req read)

/-- **The names of the routes change nothing but themselves.** -/
theorem rename_respond (req : Request X) :
    (self.rename f).respond req = (self.respond req).rename f := by
  unfold respond
  rw [rename_refused]
  cases self.refused req with
  | some => rfl
  | none =>
    show runSteps _ _ _ _ _ _ = Served.rename f (runSteps _ _ _ _ _ _)
    rw [rename_runSteps fun _ _ => rfl]
    refine congrArg _ (funext fun req' => funext fun read => ?_)
    exact rename_route req.path req' read

end ServiceInner

end Respond

/-! ## The embedding -/

/-- Why a `.nested_at` is refused. -/
inductive MountFailure
  | parameters (nestedAt : Text)
  | notParsed (nestedAt : Text) (error : PatternError)

/-- **The prefix** with a leading `/` and no trailing one, empty for `/` or none. -/
def mount (alphabet : Alphabet) : Option Text → Except MountFailure Text
  | none => .ok []
  | some nestedAt =>
    let joined := Pattern.join nestedAt []
    if joined = ['/'] then .ok []
    else
      match Pattern.parse alphabet joined with
      | .ok pattern => if pattern.paramNames = [] then .ok joined else .error (.parameters nestedAt)
      | .error error => .error (.notParsed nestedAt error)

/-- What an app declares. -/
structure AppDecl (γ μ X R E : Type) where
  bodyLimit : ℕ
  stage : Stage μ (Runnable X R E)
  handlers : List (MountedHandler γ)
  unscoped : List (Runnable X R E)
  upgrades : List Pattern
  forward : Bool
  code : Code γ X R E

/-- The app's service, its table built under a mount. -/
def AppDecl.service (app : AppDecl γ μ X R E) (alphabet : Alphabet) (mount : Text) :
    Except (List BuildFailure) (ServiceInner γ μ X R E) :=
  (Router.build alphabet app.bodyLimit mount app.stage app.handlers).map fun router =>
    { app with router }

/-- Whether the handle's service is installed. -/
inductive BindState
  | unbound
  | bound
  | closed
deriving DecidableEq

/-- **An embedded app.** -/
structure Embedded (γ μ X R E : Type) where
  mount : Text
  service : ServiceInner γ μ X R E
  /-- whether the host removes the prefix itself -/
  hostStrips : Bool

/-- Why an embedding does not prepare. -/
inductive EmbedFailure
  | mount (failure : MountFailure)
  | build (failure : BuildFailure)

/-- `prepare`: a prefix that is refused leaves the table to be built, for its own failures. -/
def AppDecl.prepare (app : AppDecl γ μ X R E) (alphabet : Alphabet) (hostStrips : Bool)
    (nestedAt : Option Text) : Except (List EmbedFailure) (Embedded γ μ X R E) :=
  match Http.mount alphabet nestedAt with
  | .ok mount =>
    match app.service alphabet mount with
    | .ok service => .ok ⟨mount, service, hostStrips⟩
    | .error failures => .error (failures.map .build)
  | .error failure =>
    match app.service alphabet [] with
    | .ok _ => .error [.mount failure]
    | .error failures => .error (.mount failure :: failures.map .build)

/-- A request as an adapter builds it. -/
structure HostRequest (X : Type) where
  method : Method
  path : Text
  query : Option Text
  upgrade : Bool
  rest : X

def HostRequest.request (req : HostRequest X) : Request X where
  method := req.method
  path := req.path
  query := req.query
  upgrade := req.upgrade
  outside := false
  rest := req.rest

/-- **`strip_prefix`** -/
def stripPrefix (mount : Text) (req : Request X) : Request X :=
  if mount = [] then req
  else
    match req.path.dropPrefix? mount with
    | some [] => { req with path := ['/'] }
    | some ('/' :: rest) => { req with path := '/' :: rest }
    | _ => { req with outside := true }

/-- `answer`, and the first lines of `respond`: a request may be refused before anything of the
app is asked. -/
def Embedded.answer (self : Embedded γ μ X R E) (state : BindState) (admits opens : Bool)
    (req : Request X) : Served γ X R E :=
  match state with
  | .unbound => ⟨[], self.service.code.notListening⟩
  | .closed => ⟨[], self.service.code.draining⟩
  | .bound =>
    if !admits then ⟨[], self.service.code.shed⟩
    else if !opens then ⟨[], self.service.code.draining⟩
    else self.service.respond req

/-- **`Service::respond`** -/
def Embedded.respond (self : Embedded γ μ X R E) (state : BindState) (admits opens : Bool)
    (req : HostRequest X) : Served γ X R E :=
  self.answer state admits opens
    (if self.hostStrips then req.request else stripPrefix self.mount req.request)

/-- A path outside a mount: neither the prefix itself nor the prefix followed by `/`. -/
def Outside (mount path : Text) : Prop := mount ≠ [] ∧ path ≠ mount ∧ ¬ mount ++ ['/'] <+: path

instance (mount path : Text) : Decidable (Outside mount path) :=
  inferInstanceAs (Decidable (_ ∧ _ ∧ _))

/-- A path with the prefix removed. -/
def Stripped (mount path path' : Text) : Prop :=
  mount = [] ∧ path' = path ∨ mount ≠ [] ∧
    (path = mount ∧ path' = ['/'] ∨ ∃ rest, path = mount ++ '/' :: rest ∧ path' = '/' :: rest)

theorem stripPrefix_of_outside {mount : Text} (h : Outside mount req.path) :
    stripPrefix mount req = { req with outside := true } := by
  obtain ⟨hmount, hne, hpre⟩ := h
  unfold stripPrefix
  rw [if_neg hmount]
  split
  · rename_i hdrop
    obtain ⟨p, hpath, hp⟩ := dropPrefix?_eq_some_iff.mp hdrop
    rw [append_nil, eq_of_beq hp] at hpath
    exact absurd hpath hne
  · rename_i rest hdrop
    obtain ⟨p, hpath, hp⟩ := dropPrefix?_eq_some_iff.mp hdrop
    refine absurd ⟨rest, ?_⟩ hpre
    rw [hpath, eq_of_beq hp, append_assoc]
    rfl
  · rfl

theorem stripPrefix_of_stripped {mount path : Text} (req : Request X)
    (h : Stripped mount req.path path) : stripPrefix mount req = { req with path := path } := by
  unfold stripPrefix
  rcases h with ⟨hmount, rfl⟩ | ⟨hmount, ⟨hpath, rfl⟩ | ⟨rest, hpath, rfl⟩⟩
  · rw [if_pos hmount]
  · have hdrop : req.path.dropPrefix? mount = some [] :=
      dropPrefix?_eq_some_iff.mpr ⟨mount, by rw [hpath, append_nil], beq_self_eq_true _⟩
    rw [if_neg hmount, hdrop]
  · have hdrop : req.path.dropPrefix? mount = some ('/' :: rest) :=
      dropPrefix?_eq_some_iff.mpr ⟨mount, hpath, beq_self_eq_true _⟩
    rw [if_neg hmount, hdrop]
    rfl

/-- A path is outside the mount or under it. -/
theorem exists_stripped_of_not_outside {mount path : Text} (h : ¬ Outside mount path) :
    ∃ path', Stripped mount path path' := by
  by_cases hmount : mount = []
  · exact ⟨path, .inl ⟨hmount, rfl⟩⟩
  by_cases hpath : path = mount
  · exact ⟨['/'], .inr ⟨hmount, .inl ⟨hpath, rfl⟩⟩⟩
  have hpre : mount ++ ['/'] <+: path := by
    by_contra hpre
    exact h ⟨hmount, hpath, hpre⟩
  obtain ⟨rest, hrest⟩ := hpre
  refine ⟨'/' :: rest, .inr ⟨hmount, .inr ⟨rest, ?_, rfl⟩⟩⟩
  rw [← hrest, append_assoc]
  rfl

/-- What a request outside the mount may come to: an unscoped entry, a miss on no route, or the
refusal of its path. -/
def Event.spares : Event γ X R E → Bool
  | .unscoped _ _ | .routed .notFound | .missed .notFound _ _ | .refused _ => true
  | _ => false

namespace ServiceInner

variable {self : ServiceInner γ μ X R E} {original : Text} {read : Bool}

/-- A marked request that is malformed is refused, or handed back to the host. -/
theorem refused_of_outside (houtside : req.outside = true) {bad : R}
    (hbad : self.malformed req.path = some bad) : self.refused req = some
      (if self.forward then
        ⟨[.routed .notFound, .missed .notFound true req], self.code.forwardable⟩
      else ⟨[.refused req], self.code.decorate req bad⟩) := by
  have hroutes : self.routes req = false := by rw [routes, if_pos houtside]
  rw [refused, hbad, hroutes]
  cases self.forward <;> rfl

theorem respond_of_refused {served : Served γ X R E} (h : self.refused req = some served) :
    self.respond req = served := by
  rw [respond, h]
  rfl

theorem events_respond (h : self.malformed req.path = none) :
    (self.respond req).events = ranSteps .unscoped self.unscoped req ++
      match self.arrives req with
      | some (req', read) => (self.route req.path req' read).events
      | none => [] := by
  rw [respond, refused, arrives, h]
  exact events_runSteps _ _ _ _

theorem ok_of_arrives {arrived : Request X × Bool} (h : self.arrives req = some arrived) :
    self.malformed req.path = none := by
  by_contra hbad
  rw [arrives, if_pos (Option.isSome_iff_ne_none.mpr hbad)] at h
  cases h

/-- A request that routing answers as a miss on no route, and runs nothing for: no upgrade path
takes it, and it is marked, or no route matches it and neither does the scope of an entry that
would run before the miss is answered. A path that is refused there is no miss, and may be so
under `Miss::Final` only. -/
def Misses (self : ServiceInner γ μ X R E) (original : Text) (req : Request X) (read : Bool) :
    Prop :=
  if (self.malformed req.path).isSome then self.forward = false
  else self.taker req = none ∧
    (req.outside = true ∨ self.router.route req.method req.path = .notFound ∧
      (self.forwardable original req read = true ∨
        ∀ step ∈ self.stage.unrouted.runnableFor req.path, step.skips req.path = true))

/-- What runs for a request that no route takes. -/
theorem events_unrouted (last : Request X → Bool → Served γ X R E) :
    (self.unrouted req read last).events
      = ranSteps .scoped (self.stage.unrouted.runnableFor req.path) req ++
        match passed (self.stage.unrouted.runnableFor req.path) req read with
        | some (req', read') => (last req' read').events
        | none => [] :=
  events_runSteps _ _ _ _

theorem missed_not_mem_ranSteps {steps : List (Runnable X R E)} {miss : Miss} {forwards : Bool}
    {req' : Request X} :
    (.missed miss forwards req' : Event γ X R E) ∉ ranSteps .scoped steps req := by
  intro hmem
  obtain ⟨step, req'', heq⟩ := mem_ranSteps hmem
  cases heq

/-- A miss on no route is answered with nothing run. -/
theorem events_missed_iff : (self.missed original .notFound req read).events
      = [.missed .notFound (self.forwardable original req read) req] ↔
    req.outside = true ∨ self.forwardable original req read = true ∨
      ∀ step ∈ self.stage.unrouted.runnableFor req.path, step.skips req.path = true := by
  have hback : self.handsBack original req read .notFound
      = self.forwardable original req read := rfl
  rw [missed, hback]
  split
  · rename_i hdirect
    rw [Bool.or_eq_true] at hdirect
    exact ⟨fun _ => hdirect.imp_right .inl, fun _ => rfl⟩
  · rename_i hstays
    rw [Bool.or_eq_true, not_or] at hstays
    rw [events_unrouted, or_iff_right hstays.1, or_iff_right hstays.2]
    constructor
    · intro hevents
      cases hran : ranSteps Event.scoped (self.stage.unrouted.runnableFor req.path) req with
      | nil => exact ranSteps_eq_nil_iff.mp hran
      | cons event ran =>
        rw [hran, cons_append] at hevents
        exact absurd ((cons.inj hevents).1 ▸ hran ▸ mem_cons_self) missed_not_mem_ranSteps
    · intro hskips
      rw [ranSteps_eq_nil_iff.mpr hskips, passed_of_skips read hskips]
      rfl

/-- **What routing makes of a request that it misses**, and when it does. -/
theorem events_route_iff :
    ((self.route original req read).events
        = [.routed .notFound, .missed .notFound (self.forwardable original req read) req] ∨
      self.forward = false ∧ self.malformed req.path ≠ none ∧
        (self.route original req read).events = [.refused req]) ↔
    self.Misses original req read := by
  unfold route Misses
  cases hbad : self.malformed req.path with
  | some bad => simp
  | none =>
    simp only [ne_eq, not_true_eq_false, false_and, and_false, or_false, Option.isSome_none,
      Bool.false_eq_true, if_false]
    cases htaker : self.taker req with
    | some taker =>
      refine iff_of_false (fun hevents => ?_) nofun
      rw [events_unrouted] at hevents
      have hmem : (.missed .notFound (self.forwardable original req read) req : Event γ X R E) ∈
          _ := hevents ▸ mem_cons_of_mem _ mem_cons_self
      rcases mem_append.mp hmem with hmem | hmem
      · exact missed_not_mem_ranSteps hmem
      · split at hmem
        · cases mem_singleton.mp hmem
        · cases hmem
    | none =>
      have hdecided : self.decided req = .notFound ↔
          req.outside = true ∨ self.router.route req.method req.path = .notFound := by
        unfold decided
        split <;> simp [*]
      cases hrouted : self.decided req with
      | notFound =>
        show _ :: (self.missed original .notFound req read).events = _ ↔ _
        rw [cons.injEq, events_missed_iff]
        rcases hdecided.mp hrouted with houtside | hroute
        · simp [houtside]
        · simp [hroute]
      | found | methodNotAllowed | options =>
        refine iff_of_false (fun hevents => ?_) fun ⟨_, hmisses⟩ => ?_
        · cases (cons.inj hevents).1
        · cases hrouted.symm.trans (hdecided.mpr (hmisses.imp_right And.left))

/-- **The app's code is spared a request**: what runs for it is unscoped entries, and then at
most a miss on no route or the refusal of its path. -/
inductive Spares (self : ServiceInner γ μ X R E) (req : Request X) (served : Served γ X R E) :
    Prop
  /-- its path is refused before anything runs, or the request handed back to the host -/
  | malformed {bad : R} (hbad : self.malformed req.path = some bad)
      (hserved : served = if self.forward then
          ⟨[.routed .notFound, .missed .notFound true req], self.code.forwardable⟩
        else ⟨[.refused req], self.code.decorate req bad⟩)
  /-- an unscoped entry answers it -/
  | answered (hok : self.malformed req.path = none) (harrives : self.arrives req = none)
      (hevents : served.events = ranSteps .unscoped self.unscoped req)
  /-- it is a `NotFound` miss, handed back to the host under `Miss::Forward` when untouched -/
  | missed {req' : Request X} {read : Bool} (harrives : self.arrives req = some (req', read))
      (hevents : served.events = ranSteps .unscoped self.unscoped req ++
        [.routed .notFound, .missed .notFound (self.forwardable req.path req' read) req'])
  /-- an unscoped entry rewrote its path to one that is refused, under `Miss::Final` -/
  | refused {req' : Request X} {read : Bool} (harrives : self.arrives req = some (req', read))
      (hfinal : self.forward = false) (hbad : self.malformed req'.path ≠ none)
      (hevents : served.events = ranSteps .unscoped self.unscoped req ++ [.refused req'])

theorem Spares.spares {served : Served γ X R E} (h : self.Spares req served) :
    ∀ event ∈ served.events, event.spares = true := by
  have hran : ∀ event ∈ ranSteps Event.unscoped self.unscoped req,
      (event : Event γ X R E).spares = true := by
    intro event hevent
    obtain ⟨step, req', rfl⟩ := mem_ranSteps hevent
    rfl
  intro event hevent
  cases h with
  | malformed hbad hserved =>
    rw [hserved] at hevent
    split at hevent <;> simp at hevent <;> rcases hevent with rfl | rfl <;> rfl
  | answered hok harrives hevents =>
    rw [hevents] at hevent
    exact hran event hevent
  | missed harrives hevents | refused harrives hfinal hbad hevents =>
    rw [hevents] at hevent
    rcases mem_append.mp hevent with hevent | hevent
    · exact hran event hevent
    · simp at hevent
      rcases hevent with rfl | rfl <;> rfl

/-- The unscoped entries leave a request such that routing misses it. -/
def Keeps (self : ServiceInner γ μ X R E) (req : Request X) : Prop :=
  ∀ req' read, self.arrives req = some (req', read) → self.Misses req.path req' read

/-- **The app's code is spared a marked request exactly where routing misses it.** -/
theorem spares_respond_iff (houtside : req.outside = true) :
    self.Spares req (self.respond req) ↔ self.Keeps req := by
  constructor
  · intro h req' read harrives
    have hevents := events_respond (ok_of_arrives harrives)
    rw [harrives] at hevents
    rw [← events_route_iff]
    cases h with
    | malformed hbad => cases hbad.symm.trans (ok_of_arrives harrives)
    | answered hok hnone => cases hnone.symm.trans harrives
    | missed harrives' hmissed =>
      cases harrives'.symm.trans harrives
      exact .inl (append_cancel_left (hevents.symm.trans hmissed))
    | refused harrives' hfinal hbad hrefused =>
      cases harrives'.symm.trans harrives
      exact .inr ⟨hfinal, hbad, append_cancel_left (hevents.symm.trans hrefused)⟩
  · intro h
    cases hbad : self.malformed req.path with
    | some bad => exact .malformed hbad (respond_of_refused (refused_of_outside houtside hbad))
    | none =>
      have hevents := events_respond hbad
      cases harrives : self.arrives req with
      | none =>
        rw [harrives, append_nil] at hevents
        exact .answered hbad harrives hevents
      | some arrived =>
        rw [harrives] at hevents
        rcases events_route_iff.mpr (h _ _ harrives) with hroute | ⟨hfinal, hbad', hroute⟩
        · exact .missed harrives (hevents.trans (congrArg _ hroute))
        · exact .refused harrives hfinal hbad' (hevents.trans (congrArg _ hroute))

end ServiceInner

namespace AppDecl

variable {app : AppDecl γ μ X R E} {alphabet : Alphabet} {hostStrips : Bool}
  {nestedAt : Option Text} {e : Embedded γ μ X R E}

theorem prepare_eq_ok (h : app.prepare alphabet hostStrips nestedAt = .ok e) :
    e.hostStrips = hostStrips ∧ app.service alphabet e.mount = .ok e.service := by
  unfold prepare at h
  split at h
  · split at h
    · rename_i hservice
      cases h
      exact ⟨rfl, hservice⟩
    · cases h
  · split at h <;> cases h

/-- **A prefix is in the names of the routes and nowhere else**: what prepares under one prepares
without, as the same service but for those names. -/
theorem prepare_none_of_ok (h : app.prepare alphabet hostStrips nestedAt = .ok e) :
    ∃ base, app.prepare alphabet hostStrips none = .ok base ∧ base.mount = [] ∧
      base.hostStrips = hostStrips ∧ e.service = base.service.rename (mounted e.mount) := by
  have hservice := (prepare_eq_ok h).2
  unfold service at hservice
  rw [Router.build_eq] at hservice
  obtain ⟨router, hrouter, heq⟩ := map_ok hservice
  obtain ⟨base, hbase, rfl⟩ := map_ok hrouter
  refine ⟨⟨[], { app with router := base }, hostStrips⟩, ?_, rfl, rfl, heq.symm⟩
  show (match app.service alphabet [] with | .ok service => _ | .error failures => _) = _
  rw [service, hbase]
  rfl

end AppDecl

/-- The request with the mark of a path outside the mount. -/
def HostRequest.marked (req : HostRequest X) : Request X := { req.request with outside := true }

/-- **A mount prefix.** An app is prepared under a prefix for a host that hands over the whole
path.

A request outside the prefix is taken from the app's code (`ServiceInner.Spares`): no handler of a
route or an upgrade and no scoped entry runs for it, and once the app takes it, it is refused with
the 400 of a malformed path under `Miss::Final`, answered by an unscoped entry, or a `NotFound`
miss, which is handed back to the host under `Miss::Forward` when the request is untouched. This
is so exactly where the unscoped entries pass it on such that routing misses it: where, as it
reaches routing, no upgrade path takes it, it has its mark or matches neither a route nor the
scope of an entry, and under `Miss::Forward` its path was not rewritten to a refused one.

A request under the prefix is served as the app without a prefix serves it with the prefix
removed: the same runs, with the same requests, and the same answer; the names of the routes
alone have the prefix. -/
theorem respond_under_mount (app : AppDecl γ μ X R E) (alphabet : Alphabet)
    (nestedAt : Option Text) (e : Embedded γ μ X R E)
    (he : app.prepare alphabet false nestedAt = .ok e) (state : BindState) (admits opens : Bool)
    (req : HostRequest X) :
    (Outside e.mount req.path →
      (state = .bound → admits = true → opens = true →
        (e.service.Spares req.marked (e.respond state admits opens req) ↔
          e.service.Keeps req.marked)) ∧
      (e.service.Keeps req.marked →
        ∀ event ∈ (e.respond state admits opens req).events, event.spares = true)) ∧
    (¬ Outside e.mount req.path → ∃ path base, Stripped e.mount req.path path ∧
      app.prepare alphabet false none = .ok base ∧
      e.respond state admits opens req =
        (base.respond state admits opens { req with path := path }).rename (mounted e.mount)) := by
  have hstrips := (AppDecl.prepare_eq_ok he).1
  constructor
  · intro houtside
    have hrespond : e.respond state admits opens req = e.answer state admits opens req.marked := by
      rw [Embedded.respond, hstrips, if_neg Bool.false_ne_true, stripPrefix_of_outside houtside]
      rfl
    have hspares : e.service.Spares req.marked (e.service.respond req.marked) ↔
        e.service.Keeps req.marked := ServiceInner.spares_respond_iff rfl
    rw [hrespond]
    constructor
    · rintro rfl rfl rfl
      exact hspares
    · unfold Embedded.answer
      intro hkeeps event hevent
      cases state with
      | unbound | closed => cases hevent
      | bound =>
        dsimp only at hevent
        split_ifs at hevent
        · cases hevent
        · cases hevent
        · exact (hspares.mpr hkeeps).spares event hevent
  · intro hinside
    obtain ⟨path, hpath⟩ := exists_stripped_of_not_outside hinside
    obtain ⟨base, hbase, hmount, hbaseStrips, hservice⟩ := AppDecl.prepare_none_of_ok he
    refine ⟨path, base, hpath, hbase, ?_⟩
    have hbaseStrip (r : Request X) : stripPrefix base.mount r = r := by
      rw [hmount, stripPrefix, if_pos rfl]
    rw [Embedded.respond, hstrips, if_neg Bool.false_ne_true, Embedded.respond, hbaseStrips,
      if_neg Bool.false_ne_true, hbaseStrip, stripPrefix_of_stripped req.request hpath]
    unfold Embedded.answer
    rw [hservice]
    cases state with
    | unbound | closed => rfl
    | bound =>
      cases admits with
      | false => rfl
      | true =>
        cases opens with
        | false => rfl
        | true => exact ServiceInner.rename_respond _

/-- An app with the upgrade path `/ws`, under `/app`. -/
def gatewayCode : Code Unit Unit String String where
  dispatch _ _ := "handled"
  upgrade _ _ := "upgraded"
  recover _ _ error := error
  noRoute := "404"
  methodNotAllowed _ _ := "405"
  decorate _ response := response
  dotSegment := "400"
  backslash := "400"
  forwardable := "forwardable"
  options _ := "204"
  notListening := "503"
  shed := "503"
  draining := "503"

def emptyStage : Stage Unit (Runnable Unit String String) where
  covering := []
  reached := []
  shared := []
  coherent := nofun
  built := nofun

def gateway : AppDecl Unit Unit Unit String String where
  bodyLimit := 0
  stage := emptyStage
  handlers := []
  unscoped := []
  upgrades := (Pattern.parse Stage.ascii ['/', 'w', 's']).toOption.toList
  forward := false
  code := gatewayCode

def upgradeOn (path : Text) (upgrade : Bool) : HostRequest Unit := ⟨.get, path, none, upgrade, ()⟩

/-- A plain request outside the prefix is a miss, and under it the app is asked for the rest. -/
theorem respond_under_mount_gateway :
    ∃ e, gateway.prepare Stage.ascii false (some ['a', 'p', 'p', '/']) = .ok e ∧
      (∀ event ∈ (e.respond .bound true true (upgradeOn ['/', 'w', 's'] false)).events,
        event.spares = true) ∧
      ∃ path base, Stripped e.mount ['/', 'a', 'p', 'p', '/', 'w', 's'] path ∧
        gateway.prepare Stage.ascii false none = .ok base ∧
        e.respond .bound true true (upgradeOn ['/', 'a', 'p', 'p', '/', 'w', 's'] true) =
          (base.respond .bound true true (upgradeOn path true)).rename (mounted e.mount) := by
  refine ⟨_, rfl, ?_, ?_⟩
  · refine ((respond_under_mount gateway Stage.ascii (some ['a', 'p', 'p', '/']) _ rfl .bound true
      true (upgradeOn ['/', 'w', 's'] false)).1 (by decide)).2 ?_
    rintro req' read harrives
    cases harrives
    exact ⟨rfl, .inl rfl⟩
  · exact (respond_under_mount gateway Stage.ascii (some ['a', 'p', 'p', '/']) _ rfl .bound true
      true (upgradeOn ['/', 'a', 'p', 'p', '/', 'w', 's'] true)).2 (by decide)

/-- **An upgrade outside the prefix**: the host hands over `/ws`, which is not under `/app`, and the
handler of the app's `/ws` takes it. -/
theorem upgraded_outside :
    ∃ e, gateway.prepare Stage.ascii false (some ['a', 'p', 'p', '/']) = .ok e ∧
      e.mount = ['/', 'a', 'p', 'p'] ∧ Outside e.mount ['/', 'w', 's'] ∧
      e.respond .bound true true (upgradeOn ['/', 'w', 's'] true) =
        ⟨[.upgraded 0 (upgradeOn ['/', 'w', 's'] true).marked], "upgraded"⟩ :=
  ⟨_, rfl, rfl, by decide, rfl⟩

end Ulo.Http
