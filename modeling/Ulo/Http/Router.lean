import Mathlib.Data.List.Sort
import Mathlib.Data.List.Induction
import Mathlib.Data.List.Lex
import Mathlib.Data.List.Pairwise
import Ulo.Http.Stage

/-!
# The router

`Router.build` makes one table of every mounted handler's route: routes that have one
pattern are one entry with its methods, two patterns that differ in parameter names
only are refused, and the entries are sorted by precedence, left to right a static
segment before a parameter before a rest. `Router.route` takes the first entry whose
pattern matches the path, and the method is looked up there and nowhere else.

What a request is answered must not depend on the order in which handlers were
mounted. It does not if no two entries of one precedence match the path. That is what
refusing duplicates is for, and it is almost enough: two patterns of one precedence
that match one path are duplicates, unless some piece of the path is a static segment
of the one as sent and of the other decoded (`Pattern.Twins`). There the first one
mounted answers.
-/

namespace Ulo.Http

open List

/-- A type, as failures name it. -/
abbrev TypeName := String

inductive Method
  | options
  | get
  | post
  | put
  | delete
  | head
  | trace
  | connect
  | patch
  | extension (name : String)
deriving DecidableEq

def Method.asStr : Method → String
  | .options => "OPTIONS"
  | .get => "GET"
  | .post => "POST"
  | .put => "PUT"
  | .delete => "DELETE"
  | .head => "HEAD"
  | .trace => "TRACE"
  | .connect => "CONNECT"
  | .patch => "PATCH"
  | .extension name => name

/-- A setting's bound, in nanoseconds. -/
inductive Bound
  | default
  | after (d : ℕ)
  | unbounded
deriving DecidableEq

/-- How long a route may run, `none` for no timeout. -/
def Bound.duration : Bound → Option ℕ
  | .after d => some d
  | .default | .unbounded => none

/-- The check of a `Path<T>` against the parameters of its route. -/
structure PathCheck where
  ty : TypeName
  check : List Text → Except String Unit

/-- One HTTP handler, with the call it makes. -/
structure HttpHandler (γ : Type) where
  method : Method
  call : γ
  pathChecks : List PathCheck

/-- A handler as it was mounted: with an HTTP handler or another value, its own route
and its controller's start of it, and its metadata. -/
structure MountedHandler (γ : Type) where
  controller : TypeName
  name : String
  http : Option (HttpHandler γ)
  route : Option Text
  start : Option Text
  bodyLimit : Option ℕ
  timeout : Option Bound
  /-- The timeout is the method's own, and not its controller's. -/
  timeoutOnMethod : Bool

/-- A handler as a failure names it. -/
structure Who where
  controller : TypeName
  name : String

def MountedHandler.who {γ : Type} (handler : MountedHandler γ) : Who :=
  ⟨handler.controller, handler.name⟩

/-- One zero timeout and the routes that run with it. -/
structure ZeroTimeout where
  controller : TypeName
  handler : Option String
  routes : List String

/-- What the table is refused for. -/
inductive BuildFailure
  | notHttp (who : Who)
  | noRoute (who : Who)
  | notParsed (who : Who) (error : PatternError)
  | unreachable (who : Who) (pattern segment : Text)
  | pathCheck (who : Who) (ty : TypeName) (pattern : Text) (reason : String)
  | renamed (taken : Text) (other : Who) (pattern : Text) (who : Who)
  | duplicate (other who : Who) (method : Method) (pattern : Text)
  | zeroTimeout (zero : ZeroTimeout)

variable {γ μ ρ : Type}

/-- One matched handler, as the table holds it. -/
structure RouteTarget (γ μ ρ : Type) where
  handler : MountedHandler γ
  call : γ
  pattern : Text
  /-- `pattern` under the embedding's mount. -/
  route : Text
  bodyLimit : ℕ
  timeout : Option ℕ
  stage : ScopedStage μ ρ

/-- A route of a group, with the handler it names in failures. -/
structure Member (γ μ ρ : Type) where
  method : Method
  target : RouteTarget γ μ ρ
  who : Who

/-- The routes sharing one pattern while the table is built: one at least. -/
structure Group (γ μ ρ : Type) where
  pattern : Pattern
  first : Member γ μ ρ
  more : List (Member γ μ ρ)

def Group.targets (group : Group γ μ ρ) : List (Member γ μ ρ) := group.first :: group.more

/-- One pattern and the handlers answering it, by method. -/
structure RouteEntry (γ μ ρ : Type) where
  pattern : Pattern
  methods : List (Method × RouteTarget γ μ ρ)
  allow : String
  route : Text

def RouteEntry.target (entry : RouteEntry γ μ ρ) (method : Method) : Option (RouteTarget γ μ ρ) :=
  (entry.methods.find? fun candidate => candidate.1 == method).map (·.2)

/-- **The table.** -/
structure Router (γ μ ρ : Type) where
  routes : List (RouteEntry γ μ ρ)

/-- The methods a pattern answers, in declaration order, with `HEAD` beside `GET` and
`OPTIONS` in the end where they are not declared. -/
def allowOf (methods : List Method) : String :=
  let names := methods.map Method.asStr
  let names :=
    if "HEAD" ∈ names then names
    else
      match names.findIdx? (· = "GET") with
      | some i => names.insertIdx (i + 1) "HEAD"
      | none => names
  let names := if "OPTIONS" ∈ names then names else names ++ ["OPTIONS"]
  ", ".intercalate names

section Build

variable (alphabet : Alphabet) (defaultBodyLimit : ℕ) (mount : Text)

/-- The handler's HTTP value and its pattern, or why it has none. -/
def MountedHandler.parsed (handler : MountedHandler γ) :
    Except BuildFailure (HttpHandler γ × Pattern) :=
  match handler.http with
  | none => .error (.notHttp handler.who)
  | some http =>
    match handler.route with
    | none => .error (.noRoute handler.who)
    | some route =>
      let text := match handler.start with
        | some start => Pattern.join start route
        | none => route
      match Pattern.parse alphabet text with
      | .error error => .error (.notParsed handler.who error)
      | .ok pattern =>
        match pattern.unreachableSegment with
        | some segment => .error (.unreachable handler.who pattern.raw segment)
        | none => .ok (http, pattern)

/-- The failures of the handler's `Path<T>` checks. -/
def MountedHandler.checked (handler : MountedHandler γ) (http : HttpHandler γ) (pattern : Pattern) :
    List BuildFailure :=
  http.pathChecks.filterMap fun check =>
    match check.check pattern.paramNames with
    | .ok _ => none
    | .error reason => some (.pathCheck handler.who check.ty pattern.raw reason)

/-- One more route with a zero timeout. -/
def addZero (zeros : List ZeroTimeout) (controller : TypeName) (handler : Option String)
    (route : String) : List ZeroTimeout :=
  match zeros.findIdx? fun zero => zero.controller == controller && zero.handler == handler with
  | some i => zeros.modify i fun zero => { zero with routes := zero.routes ++ [route] }
  | none => zeros ++ [⟨controller, handler, [route]⟩]

/-- The handler's place in the table. -/
def MountedHandler.target (handler : MountedHandler γ) (http : HttpHandler γ) (pattern : Pattern)
    (stage : ScopedStage μ ρ) : RouteTarget γ μ ρ where
  handler := handler
  call := http.call
  pattern := pattern.raw
  route := if mount = [] then pattern.raw else Pattern.join mount pattern.raw
  bodyLimit := handler.bodyLimit.getD defaultBodyLimit
  timeout := handler.timeout.bind Bound.duration
  stage := stage

/-- A route in its group, or why it is refused there. -/
def addRoute (pattern : Pattern) (member : Member γ μ ρ) :
    List (Group γ μ ρ) → Except BuildFailure (List (Group γ μ ρ))
  | [] => .ok [⟨pattern, member, []⟩]
  | group :: groups =>
    if group.pattern.conflicts pattern then
      if group.pattern.raw ≠ pattern.raw then
        .error (.renamed group.pattern.raw group.first.who pattern.raw member.who)
      else
        match group.targets.find? (·.method == member.method) with
        | some other => .error (.duplicate other.who member.who member.method pattern.raw)
        | none => .ok ({ group with more := group.more ++ [member] } :: groups)
    else (addRoute pattern member groups).map (group :: ·)

/-- The table under way. -/
structure Building (γ μ ρ : Type) where
  errors : List BuildFailure := []
  groups : List (Group γ μ ρ) := []
  zeros : List ZeroTimeout := []
  stage : Stage μ ρ

/-- One handler. -/
def Building.add (b : Building γ μ ρ) (handler : MountedHandler γ) : Building γ μ ρ :=
  match handler.parsed alphabet with
  | .error failure => { b with errors := b.errors ++ [failure] }
  | .ok (http, pattern) =>
    let errors := b.errors ++ handler.checked http pattern
    let zeros :=
      if handler.timeout = some (.after 0) then
        addZero b.zeros handler.controller
          (if handler.timeoutOnMethod then some handler.name else none)
          ("`" ++ http.method.asStr ++ " " ++ String.ofList pattern.raw ++ "`")
      else b.zeros
    let stage := b.stage.scopedFor pattern
    let target := handler.target defaultBodyLimit mount http pattern stage.2
    match addRoute pattern ⟨http.method, target, handler.who⟩ b.groups with
    | .ok groups => { errors := errors, groups := groups, zeros := zeros, stage := stage.1 }
    | .error failure =>
      { errors := errors ++ [failure], groups := b.groups, zeros := zeros, stage := stage.1 }

/-- A group as an entry. -/
def Group.entry (group : Group γ μ ρ) : RouteEntry γ μ ρ where
  pattern := group.pattern
  methods := group.targets.map fun member => (member.method, member.target)
  allow := allowOf (group.targets.map (·.method))
  route := group.first.target.route

namespace Router

/-- **The table for some handlers**, or every failure. -/
def build (stage : Stage μ ρ) (handlers : List (MountedHandler γ)) :
    Except (List BuildFailure) (Router γ μ ρ) :=
  let b := handlers.foldl (Building.add alphabet defaultBodyLimit mount) { stage := stage }
  let errors := b.errors ++ b.zeros.map .zeroTimeout
  if errors.isEmpty then
    .ok ⟨(b.groups.map Group.entry).insertionSort fun e e' =>
      e.pattern.precedence ≤ e'.pattern.precedence⟩
  else .error errors

end Router

end Build

/-- What routing a request decided. -/
inductive Routed (γ μ ρ : Type)
  | found (target : RouteTarget γ μ ρ) (params : PathParams) (headFromGet : Bool)
  | notFound
  | methodNotAllowed (allow : String)
  | options (allow : String) (route : Text)

/-- What an entry that matches decides. -/
def RouteEntry.answer (entry : RouteEntry γ μ ρ) (method : Method) (params : PathParams) :
    Routed γ μ ρ :=
  match entry.target method with
  | some target => .found target params false
  | none =>
    match if method = .head then entry.target .get else none with
    | some target => .found target params true
    | none =>
      if method = .options then .options entry.allow entry.route else .methodNotAllowed entry.allow

/-- The first entry that matches decides. -/
def routeFrom (method : Method) (path : Text) (pieces : List (ℕ × Text)) :
    List (RouteEntry γ μ ρ) → Routed γ μ ρ
  | [] => .notFound
  | entry :: entries =>
    match entry.pattern.matchSplit path pieces with
    | none => routeFrom method path pieces entries
    | some params => entry.answer method params

namespace Router

/-- **The most specific pattern matching `path` decides.** -/
def route (self : Router γ μ ρ) (method : Method) (path : Text) : Routed γ μ ρ :=
  routeFrom method (normalize path) (split (normalize path)) self.routes

/-- The entry that decides. -/
def deciding (self : Router γ μ ρ) (path : Text) : Option (RouteEntry γ μ ρ) :=
  self.routes.find? fun entry => (entry.pattern.matchesPath path).isSome

end Router

/-! ## Patterns that conflict -/

/-- A segment without its name. -/
def Segment.place : Segment → Segment
  | .static text => .static text
  | .param _ => .param []
  | .rest _ => .rest []

namespace Pattern

/-- A pattern without the names of its parameters. -/
def places (self : Pattern) : List Segment := self.segments.map Segment.place

variable {p q : Pattern} {alphabet : Alphabet}

theorem conflicts_iff : p.conflicts q = true ↔ p.places = q.places := by
  rw [conflicts, Bool.and_eq_true, beq_iff_eq, all_zip_iff]
  constructor
  · rintro ⟨hlength, hpairs⟩
    refine map_eq_map_of_getElem? hlength fun i a b ha hb => ?_
    have hpair := hpairs i a b ha hb
    cases a <;> cases b <;> first | rfl | cases hpair | skip
    rw [beq_iff_eq] at hpair
    rw [hpair]
  · intro h
    refine ⟨by simpa [places] using congrArg length h, fun i a b ha hb => ?_⟩
    have hplace : a.place = b.place := by
      have hi := congrArg (·[i]?) h
      simp only [places, getElem?_map, ha, hb, Option.map_some] at hi
      exact Option.some.inj hi
    cases a <;> cases b <;> first | rfl | cases hplace
    exact beq_self_eq_true _

theorem parse_spec {text : Text} (h : parse alphabet text = .ok p) :
    p.raw = normalize text ∧ parseSegments alphabet text false = .ok p.segments := by
  unfold parse at h
  split at h
  · cases h
  · cases h
    exact ⟨rfl, ‹_›⟩

/-- **A pattern is told by its normalized text.** -/
theorem eq_of_raw_eq {text text' : Text} (hp : parse alphabet text = .ok p)
    (hq : parse alphabet text' = .ok q) (h : p.raw = q.raw) : p = q := by
  obtain ⟨hraw, hsegments⟩ := parse_spec hp
  obtain ⟨hraw', hsegments'⟩ := parse_spec hq
  have hnormal : normalize text = normalize text' := hraw ▸ hraw' ▸ h
  have hsame : parseSegments alphabet text false = parseSegments alphabet text' false := by
    unfold parseSegments at hsegments hsegments' ⊢
    split at hsegments
    · cases hsegments
    · rename_i hstart
      split at hsegments'
      · cases hsegments'
      · rename_i hstart'
        rw [if_neg hstart, if_neg hstart', hnormal]
  rw [hsegments, hsegments'] at hsame
  cases p
  cases q
  cases h
  cases Except.ok.inj hsame
  rfl

/-- **Twins on a path**: two patterns of one precedence match it, where a piece is a
static segment of the one as sent and of the other decoded. -/
def Twins (p q : Pattern) (path : Text) : Prop :=
  p.precedence = q.precedence ∧ (p.matchesPath path).isSome = true ∧
  (q.matchesPath path).isSome = true ∧
    ∃ (i : ℕ) (text text' : Text) (offset : ℕ) (piece : Text),
      p.segments[i]? = some (.static text) ∧ q.segments[i]? = some (.static text') ∧
      (split (normalize path))[i]? = some (offset, piece) ∧ SentAs piece text text'

/-- **Two patterns of one precedence that match one path** conflict, or are twins. -/
theorem conflicts_or_twins {path : Text} (h : p.precedence = q.precedence)
    (hp : (p.matchesPath path).isSome = true) (hq : (q.matchesPath path).isSome = true) :
    p.places = q.places ∨ Twins p q path := by
  by_cases htwins : Twins p q path
  · exact .inr htwins
  · refine .inl (map_eq_map_of_getElem? ?_ fun i a b ha hb => ?_)
    · simpa [precedence] using congrArg length h
    · have hkind := congrArg (·[i]?) h
      simp only [precedence, getElem?_map, ha, hb, Option.map_some] at hkind
      cases a <;> cases b <;> first | rfl | cases hkind
      rename_i text text'
      obtain ⟨-, offset, piece, hpiece, htake⟩ :=
        (ScopePattern.takes_of_matchesPath hp).takes i _ (shapeOf_static.mpr ha)
      obtain ⟨-, offset', piece', hpiece', htake'⟩ :=
        (ScopePattern.takes_of_matchesPath hq).takes i _ (shapeOf_static.mpr hb)
      cases hpiece.symm.trans hpiece'
      rcases eq_or_sentAs htake htake' with heq | hsent
      · rw [heq]
      · exact absurd ⟨h, hp, hq, i, text, text', offset, piece, ha, hb, hpiece, hsent⟩ htwins

end Pattern

/-! ## What the table holds -/

/-- A route of the table: its pattern and its place in the group. -/
abbrev Row (γ μ ρ : Type) := Pattern × Member γ μ ρ

/-- Two routes fit in one table: with one pattern but for names, they have it in one
spelling, and different methods. -/
def Row.Compatible (r r' : Row γ μ ρ) : Prop :=
  r.1.places = r'.1.places → r.1.raw = r'.1.raw ∧ r.2.method ≠ r'.2.method

instance : Std.Symm (Row.Compatible : Row γ μ ρ → Row γ μ ρ → Prop) where
  symm _ _ h := fun hplaces => ⟨(h hplaces.symm).1.symm, (h hplaces.symm).2.symm⟩

variable {gs : List (Group γ μ ρ)} {m : Member γ μ ρ} {p : Pattern}

/-- What `addRoute` did: a group of its own, or one more route in its group. -/
theorem addRoute_spec {gs' : List (Group γ μ ρ)} (h : addRoute p m gs = .ok gs') :
    (∀ g ∈ gs, g.pattern.places ≠ p.places) ∧ gs' = gs ++ [⟨p, m, []⟩] ∨
    ∃ front g back, gs = front ++ g :: back ∧ g.pattern.places = p.places ∧
      g.pattern.raw = p.raw ∧ (∀ t ∈ g.targets, t.method ≠ m.method) ∧
      gs' = front ++ { g with more := g.more ++ [m] } :: back := by
  induction gs generalizing gs' with
  | nil =>
    cases h
    exact .inl ⟨fun _ hg => absurd hg not_mem_nil, rfl⟩
  | cons group gs ih =>
    rw [addRoute] at h
    split at h
    · rename_i hconflict
      split at h
      · cases h
      · rename_i hraw
        split at h
        · cases h
        · rename_i hnone
          cases h
          refine .inr ⟨[], group, gs, rfl, Pattern.conflicts_iff.mp hconflict, not_not.mp hraw,
            fun t ht => ?_, rfl⟩
          exact fun heq => (find?_eq_none.mp hnone t ht) (beq_iff_eq.mpr heq)
    · rename_i hconflict
      obtain ⟨gs₁, hgs₁, rfl⟩ := map_ok h
      rcases ih hgs₁ with ⟨hnone, rfl⟩ | ⟨front, g, back, rfl, hplaces, hraw, hmethods, rfl⟩
      · refine .inl ⟨fun g hg => ?_, rfl⟩
        rcases mem_cons.mp hg with rfl | hg
        · exact fun heq => hconflict (Pattern.conflicts_iff.mpr heq)
        · exact hnone g hg
      · exact .inr ⟨group :: front, g, back, rfl, hplaces, hraw, hmethods, rfl⟩

/-- A route that fits its group is taken. -/
theorem addRoute_ok (h : ∀ g ∈ gs, g.pattern.places = p.places →
      g.pattern.raw = p.raw ∧ ∀ t ∈ g.targets, t.method ≠ m.method) :
    ∃ gs', addRoute p m gs = .ok gs' := by
  induction gs with
  | nil => exact ⟨_, rfl⟩
  | cons group gs ih =>
    rw [addRoute]
    split
    · rename_i hconflict
      obtain ⟨hraw, hmethods⟩ := h group mem_cons_self (Pattern.conflicts_iff.mp hconflict)
      rw [if_neg (not_not.mpr hraw)]
      have hnone : group.targets.find? (·.method == m.method) = none :=
        find?_eq_none.mpr fun t ht heq => hmethods t ht (beq_iff_eq.mp heq)
      rw [hnone]
      exact ⟨_, rfl⟩
    · obtain ⟨gs', hgs'⟩ := ih fun g hg => h g (mem_cons_of_mem _ hg)
      exact ⟨group :: gs', by rw [hgs']; rfl⟩

/-- **The groups of some routes**: each route is in the one group of its pattern, and a
group has its routes in order. -/
structure Grouped (rows : List (Row γ μ ρ)) (gs : List (Group γ μ ρ)) : Prop where
  cover : ∀ r ∈ rows, ∃ g ∈ gs, g.pattern.places = r.1.places
  distinct : (gs.map (·.pattern.places)).Nodup
  members : ∀ g ∈ gs, g.targets =
    (rows.filter fun r => decide (r.1.places = g.pattern.places)).map (·.2)
  source : ∀ g ∈ gs, ∃ r ∈ rows, r.1 = g.pattern
  compatible : rows.Pairwise Row.Compatible

namespace Grouped

variable {rows : List (Row γ μ ρ)} {gs gs' : List (Group γ μ ρ)} {r : Row γ μ ρ} {g : Group γ μ ρ}

theorem nil : Grouped ([] : List (Row γ μ ρ)) [] where
  cover := fun _ hr => absurd hr not_mem_nil
  distinct := nodup_nil
  members := fun _ hg => absurd hg not_mem_nil
  source := fun _ hg => absurd hg not_mem_nil
  compatible := List.Pairwise.nil

section

variable (h : Grouped rows gs)
include h

/-- The routes of a group are spelled as it is. -/
theorem raw_eq (hg : g ∈ gs) (hr : r ∈ rows) (hplaces : r.1.places = g.pattern.places) :
    r.1.raw = g.pattern.raw := by
  obtain ⟨r₀, hr₀, hpattern⟩ := h.source g hg
  by_cases heq : r = r₀
  · rw [heq, hpattern]
  · rw [← hpattern] at hplaces ⊢
    exact (h.compatible.forall hr hr₀ heq hplaces).1

/-- The members of a group are its routes'. -/
theorem mem_targets (hg : g ∈ gs) {t : Member γ μ ρ} :
    t ∈ g.targets ↔ ∃ r ∈ rows, r.1.places = g.pattern.places ∧ r.2 = t := by
  rw [h.members g hg, mem_map]
  refine exists_congr fun r => ?_
  rw [mem_filter, decide_eq_true_iff, and_assoc]

/-- A route with a group of its own. -/
theorem opens (hnone : ∀ g ∈ gs, g.pattern.places ≠ r.1.places) :
    Grouped (rows ++ [r]) (gs ++ [⟨r.1, r.2, []⟩]) := by
  -- no route before it has its pattern
  have hnew : ∀ r' ∈ rows, r'.1.places ≠ r.1.places := fun r' hr' heq => by
    obtain ⟨g, hg, hplaces⟩ := h.cover r' hr'
    exact hnone g hg (hplaces.trans heq)
  refine ⟨fun r' hr' => ?_, ?_, fun g hg => ?_, fun g hg => ?_, ?_⟩
  · rcases mem_snoc.mp hr' with hr' | hr'
    · obtain ⟨g, hg, hplaces⟩ := h.cover r' hr'
      exact ⟨g, mem_append_left _ hg, hplaces⟩
    · exact ⟨_, mem_concat_self, by
        rw [hr']⟩
  · rw [map_append, nodup_append]
    refine ⟨h.distinct, nodup_singleton _, fun places hmem places' hmem' => ?_⟩
    obtain ⟨g, hg, rfl⟩ := mem_map.mp hmem
    rw [mem_singleton.mp hmem']
    exact hnone g hg
  · rw [filter_append, map_append]
    rcases mem_snoc.mp hg with hg | hg
    · rw [h.members g hg, filter_cons_of_neg (by simpa using (hnone g hg).symm)]
      exact (append_nil _).symm
    · rw [hg, filter_eq_nil_iff.mpr fun r' hr' => by
        simpa using hnew r' hr']
      simp [Group.targets]
  · rcases mem_snoc.mp hg with hg | hg
    · obtain ⟨r', hr', hpattern⟩ := h.source g hg
      exact ⟨r', mem_append_left _ hr', hpattern⟩
    · exact ⟨r, mem_concat_self, by
        rw [hg]⟩
  · exact h.compatible.snoc fun r' hr' hplaces => absurd hplaces (hnew r' hr')

omit h in
/-- A route in the group of its pattern. -/
theorem joins {front back : List (Group γ μ ρ)} (h : Grouped rows (front ++ g :: back))
    (hplaces : g.pattern.places = r.1.places) (hraw : g.pattern.raw = r.1.raw)
    (hmethods : ∀ t ∈ g.targets, t.method ≠ r.2.method) :
    Grouped (rows ++ [r]) (front ++ { g with more := g.more ++ [r.2] } :: back) := by
  have hg : g ∈ front ++ g :: back := mem_append_right _ mem_cons_self
  have hmap : (front ++ { g with more := g.more ++ [r.2] } :: back).map (·.pattern) =
      (front ++ g :: back).map (·.pattern) := by
    rw [map_append, map_append]
    rfl
  -- the other groups are of other patterns
  have hother : ∀ x ∈ front ++ { g with more := g.more ++ [r.2] } :: back,
      x = { g with more := g.more ++ [r.2] } ∨
        x ∈ front ++ g :: back ∧ x.pattern.places ≠ g.pattern.places := by
    intro x hx
    have hdistinct := h.distinct
    rw [map_append, map_cons, nodup_append, nodup_cons] at hdistinct
    rcases mem_append.mp hx with hx | hx
    · refine .inr ⟨mem_append_left _ hx, ?_⟩
      exact hdistinct.2.2 _ (mem_map_of_mem hx) _ mem_cons_self
    · rcases mem_cons.mp hx with rfl | hx
      · exact .inl rfl
      · refine .inr ⟨mem_append_right _ (mem_cons_of_mem _ hx), fun heq => ?_⟩
        exact hdistinct.2.1.1 (heq ▸ mem_map_of_mem hx)
  refine ⟨fun r' hr' => ?_, ?_, fun x hx => ?_, fun x hx => ?_, ?_⟩
  · have hfind : ∃ x ∈ front ++ g :: back, x.pattern.places = r'.1.places := by
      rcases mem_snoc.mp hr' with hr' | hr'
      · exact h.cover r' hr'
      · exact ⟨g, hg, by rw [hr', hplaces]⟩
    obtain ⟨x, hx, hxplaces⟩ := hfind
    have hpattern := mem_map_of_mem (f := fun x : Group γ μ ρ => x.pattern) hx
    rw [← hmap] at hpattern
    obtain ⟨y, hy, hyx⟩ := mem_map.mp hpattern
    exact ⟨y, hy, by rw [hyx, hxplaces]⟩
  · have hplacesMap := congrArg (map Pattern.places) hmap
    rw [map_map, map_map] at hplacesMap
    exact (show (map (fun x : Group γ μ ρ => x.pattern.places) _) = _ from hplacesMap) ▸ h.distinct
  · rw [filter_append, map_append]
    rcases hother x hx with rfl | ⟨hx, hne⟩
    · rw [← h.members g hg, filter_cons_of_pos (by simpa using hplaces.symm)]
      simp [Group.targets]
    · rw [h.members x hx, filter_cons_of_neg (by
        simpa using fun heq : r.1.places = x.pattern.places => hne (heq.symm.trans hplaces.symm))]
      exact (append_nil _).symm
  · have hfind : ∃ r' ∈ rows, r'.1 = x.pattern := by
      rcases hother x hx with rfl | ⟨hx, -⟩
      · exact h.source g hg
      · exact h.source x hx
    obtain ⟨r', hr', hpattern⟩ := hfind
    exact ⟨r', mem_append_left _ hr', hpattern⟩
  · refine h.compatible.snoc fun r' hr' hsame => ?_
    have hsame' : r'.1.places = g.pattern.places := hsame.trans hplaces.symm
    exact ⟨(h.raw_eq hg hr' hsame').trans hraw,
      hmethods r'.2 ((h.mem_targets hg).mpr ⟨r', hr', hsame', rfl⟩)⟩

theorem step (hadd : addRoute r.1 r.2 gs = .ok gs') : Grouped (rows ++ [r]) gs' := by
  rcases addRoute_spec hadd with ⟨hnone, rfl⟩ | ⟨front, g, back, rfl, hplaces, hraw, hmethods, rfl⟩
  · exact h.opens hnone
  · exact h.joins hplaces hraw hmethods

/-- A compatible route is taken. -/
theorem accepts (hrows : (rows ++ [r]).Pairwise Row.Compatible) :
    ∃ gs', addRoute r.1 r.2 gs = .ok gs' := by
  have hr : ∀ r' ∈ rows, Row.Compatible r' r := fun r' hr' =>
    (pairwise_append.mp hrows).2.2 r' hr' r (mem_singleton_self r)
  refine addRoute_ok fun g hg hplaces => ⟨?_, fun t ht => ?_⟩
  · obtain ⟨r₀, hr₀, hpattern⟩ := h.source g hg
    rw [← hpattern] at hplaces ⊢
    exact (hr r₀ hr₀ hplaces).1
  · obtain ⟨r', hr', hplaces', rfl⟩ := (h.mem_targets hg).mp ht
    exact (hr r' hr' (hplaces'.trans hplaces)).2

end

end Grouped

/-- The groups of some routes, one by one. -/
def groupRows (rows : List (Row γ μ ρ)) : Except BuildFailure (List (Group γ μ ρ)) :=
  rows.foldlM (fun gs r => addRoute r.1 r.2 gs) []

theorem groupRows_snoc (rows : List (Row γ μ ρ)) (r : Row γ μ ρ) :
    groupRows (rows ++ [r]) = (groupRows rows).bind fun gs => addRoute r.1 r.2 gs := by
  rw [groupRows, foldlM_append]
  show ((groupRows rows).bind fun gs => [r].foldlM _ gs) = _
  congr 1
  funext gs
  show (addRoute r.1 r.2 gs).bind (fun gs => .ok gs) = _
  cases addRoute r.1 r.2 gs <;> rfl

theorem grouped_of_groupRows {rows : List (Row γ μ ρ)} (h : groupRows rows = .ok gs) :
    Grouped rows gs := by
  induction rows using reverseRecOn generalizing gs with
  | nil =>
    cases h
    exact .nil
  | append_singleton rows r ih =>
    rw [groupRows_snoc] at h
    obtain ⟨gs₀, h₀, hadd⟩ := bind_ok h
    exact (ih h₀).step hadd

/-- **The routes that are grouped** are those that fit with each other. -/
theorem groupRows_ok_of_compatible {rows : List (Row γ μ ρ)} (h : rows.Pairwise Row.Compatible) :
    ∃ gs, groupRows rows = .ok gs := by
  induction rows using reverseRecOn with
  | nil => exact ⟨[], rfl⟩
  | append_singleton rows r ih =>
    obtain ⟨gs, hgs⟩ := ih (pairwise_append.mp h).1
    obtain ⟨gs', hgs'⟩ := (grouped_of_groupRows hgs).accepts h
    exact ⟨gs', by rw [groupRows_snoc, hgs]; exact hgs'⟩

/-! ## What is accepted -/

section Accepted

variable {alphabet : Alphabet} {defaultBodyLimit : ℕ} {mount : Text} {stage : Stage μ ρ}
  {handler : MountedHandler γ}

variable (alphabet defaultBodyLimit mount) in
/-- The route a handler has in the table, if nothing is wrong with it alone. -/
def MountedHandler.row? (covering : List (Covering μ ρ)) (handler : MountedHandler γ) :
    Option (Row γ μ ρ) :=
  match handler.parsed alphabet with
  | .error _ => none
  | .ok (http, pattern) =>
    if (handler.checked http pattern).isEmpty ∧ handler.timeout ≠ some (.after 0) then
      some (pattern, ⟨http.method, handler.target defaultBodyLimit mount http pattern
        (.ofCovered pattern (coveredBy covering pattern)), handler.who⟩)
    else none

/-- Nothing is refused so far. -/
def Building.Clean (b : Building γ μ ρ) : Prop := b.errors = [] ∧ b.zeros = []

theorem addZero_ne_nil (zeros : List ZeroTimeout) (controller : TypeName) (handler : Option String)
    (route : String) : addZero zeros controller handler route ≠ [] := by
  unfold addZero
  split
  · rename_i i hi
    have hlt : i < zeros.length := (findIdx?_eq_some_iff_getElem.mp hi).1
    refine ne_nil_of_length_pos ?_
    rw [length_modify]
    omega
  · exact append_ne_nil_of_right_ne_nil _ (cons_ne_nil _ _)

theorem Building.covering_add (b : Building γ μ ρ) (handler : MountedHandler γ) :
    (b.add alphabet defaultBodyLimit mount handler).stage.covering = b.stage.covering := by
  unfold Building.add
  split
  · rfl
  · simp only
    split <;> exact Stage.covering_scopedFor _ _

/-- **One handler is taken** if nothing was refused before, nothing is wrong with it
alone, and its route fits. -/
theorem Building.clean_add {b : Building γ μ ρ} {gs : List (Group γ μ ρ)} :
    (b.add alphabet defaultBodyLimit mount handler).Clean ∧
        (b.add alphabet defaultBodyLimit mount handler).groups = gs ↔
      b.Clean ∧ ∃ r, handler.row? alphabet defaultBodyLimit mount b.stage.covering = some r ∧
        addRoute r.1 r.2 b.groups = .ok gs := by
  cases hparsed : handler.parsed alphabet with
  | error =>
    have hrow : handler.row? alphabet defaultBodyLimit mount b.stage.covering = none := by
      rw [MountedHandler.row?, hparsed]
    rw [hrow, Building.add, hparsed]
    refine iff_of_false (fun h => ?_) fun ⟨_, _, h, _⟩ => by cases h
    exact cons_ne_nil _ _ (append_eq_nil_iff.mp h.1.1).2
  | ok parsed =>
    obtain ⟨http, pattern⟩ := parsed
    by_cases halone : (handler.checked http pattern).isEmpty ∧ handler.timeout ≠ some (.after 0)
    · have hrow : handler.row? alphabet defaultBodyLimit mount b.stage.covering =
          some (pattern, ⟨http.method, handler.target defaultBodyLimit mount http pattern
            (.ofCovered pattern (coveredBy b.stage.covering pattern)), handler.who⟩) := by
        rw [MountedHandler.row?, hparsed]
        exact if_pos halone
      rw [hrow, Building.add, hparsed]
      simp only [Stage.scopedFor_eq, isEmpty_iff.mp halone.1, if_neg halone.2, append_nil,
        Option.some.injEq, exists_eq_left']
      split
      · rename_i hadd
        rw [hadd, Except.ok.injEq]
        rfl
      · rename_i hadd
        rw [hadd]
        refine iff_of_false (fun h => ?_) fun h => by cases h.2
        exact cons_ne_nil _ _ (append_eq_nil_iff.mp h.1.1).2
    · have hrow : handler.row? alphabet defaultBodyLimit mount b.stage.covering = none := by
        rw [MountedHandler.row?, hparsed]
        exact if_neg halone
      -- a failed check is there already, and a zero timeout is refused in the end
      have hdirty : (b.errors ++ handler.checked http pattern ≠ []) ∨
          (if handler.timeout = some (.after 0) then
            addZero b.zeros handler.controller
              (if handler.timeoutOnMethod then some handler.name else none)
              ("`" ++ http.method.asStr ++ " " ++ String.ofList pattern.raw ++ "`")
          else b.zeros) ≠ [] := by
        by_cases hzero : handler.timeout = some (.after 0)
        · rw [if_pos hzero]
          exact .inr (addZero_ne_nil _ _ _ _)
        · refine .inl (append_ne_nil_of_right_ne_nil _ fun hnil => halone ⟨?_, hzero⟩)
          rw [hnil]
          rfl
      rw [hrow, Building.add, hparsed]
      refine iff_of_false ?_ fun ⟨_, _, h, _⟩ => by cases h
      simp only
      split
      · exact fun h => hdirty.elim (fun he => he h.1.1) fun hz => hz h.1.2
      · exact fun h => hdirty.elim (fun he => he (append_eq_nil_iff.mp h.1.1).1) fun hz => hz h.1.2

theorem Building.clean_foldl {b : Building γ μ ρ} {handlers : List (MountedHandler γ)}
    {gs : List (Group γ μ ρ)} :
    (handlers.foldl (Building.add alphabet defaultBodyLimit mount) b).Clean ∧
        (handlers.foldl (Building.add alphabet defaultBodyLimit mount) b).groups = gs ↔
      b.Clean ∧
      (∀ h ∈ handlers, (h.row? alphabet defaultBodyLimit mount b.stage.covering).isSome = true) ∧
      (handlers.filterMap (·.row? alphabet defaultBodyLimit mount b.stage.covering)).foldlM
        (fun gs r => addRoute r.1 r.2 gs) b.groups = .ok gs := by
  induction handlers generalizing b with
  | nil =>
    refine and_congr_right fun _ => ?_
    simp only [not_mem_nil, false_imp_iff, implies_true, true_and]
    exact ⟨congrArg Except.ok, Except.ok.inj⟩
  | cons handler handlers ih =>
    rw [foldl_cons, ih, Building.covering_add]
    constructor
    · rintro ⟨hclean, hrows, hfold⟩
      obtain ⟨hb, r, hr, hadd⟩ := Building.clean_add.mp ⟨hclean, rfl⟩
      refine ⟨hb, fun h hh => ?_, ?_⟩
      · rcases mem_cons.mp hh with rfl | hh
        · rw [hr]
          rfl
        · exact hrows h hh
      · rw [filterMap_cons_some hr, foldlM_cons, hadd]
        exact hfold
    · rintro ⟨hb, hrows, hfold⟩
      obtain ⟨r, hr⟩ := Option.isSome_iff_exists.mp (hrows handler mem_cons_self)
      rw [filterMap_cons_some hr, foldlM_cons] at hfold
      obtain ⟨gs₁, hadd, hfold⟩ := bind_ok hfold
      obtain ⟨hclean, hgroups⟩ := Building.clean_add.mpr ⟨hb, r, hr, hadd⟩
      exact ⟨hclean, fun h hh => hrows h (mem_cons_of_mem _ hh), hgroups ▸ hfold⟩

namespace Router

variable (alphabet defaultBodyLimit mount stage) in
/-- The routes of some handlers. -/
def rows (handlers : List (MountedHandler γ)) : List (Row γ μ ρ) :=
  handlers.filterMap (·.row? alphabet defaultBodyLimit mount stage.covering)

/-- **What `build` accepts**: handlers with nothing wrong in them alone whose routes
are grouped. -/
theorem build_ok_iff {handlers : List (MountedHandler γ)} {r : Router γ μ ρ} :
    build alphabet defaultBodyLimit mount stage handlers = .ok r ↔
      (∀ h ∈ handlers, (h.row? alphabet defaultBodyLimit mount stage.covering).isSome = true) ∧
      ∃ gs, groupRows (rows alphabet defaultBodyLimit mount stage handlers) = .ok gs ∧
        r = ⟨(gs.map Group.entry).insertionSort
          fun e e' => e.pattern.precedence ≤ e'.pattern.precedence⟩ := by
  constructor
  · intro h
    unfold build at h
    simp only at h
    split at h
    · rename_i hnone
      obtain ⟨herrors, hzeros⟩ := append_eq_nil_iff.mp (isEmpty_iff.mp hnone)
      obtain ⟨-, hrows, hfold⟩ :=
        Building.clean_foldl.mp ⟨⟨herrors, map_eq_nil_iff.mp hzeros⟩, rfl⟩
      exact ⟨hrows, _, hfold, (Except.ok.inj h).symm⟩
    · cases h
  · rintro ⟨hrows, gs, hgs, rfl⟩
    obtain ⟨⟨herrors, hzeros⟩, hgroups⟩ := Building.clean_foldl.mpr
      ⟨(⟨rfl, rfl⟩ : ({ stage := stage } : Building γ μ ρ).Clean), hrows, hgs⟩
    unfold build
    simp only [herrors, hzeros, hgroups]
    rfl

/-- **A table of some routes**: its entries are sorted, one for each pattern, and each
with the routes of its pattern. -/
structure Table (rows : List (Row γ μ ρ)) (r : Router γ μ ρ) : Prop where
  sorted : r.routes.Pairwise fun e e' => e.pattern.precedence ≤ e'.pattern.precedence
  cover : ∀ row ∈ rows, ∃ e ∈ r.routes, e.pattern.places = row.1.places
  source : ∀ e ∈ r.routes, ∃ row ∈ rows, row.1 = e.pattern
  distinct : ∀ e ∈ r.routes, ∀ e' ∈ r.routes, e.pattern.places = e'.pattern.places → e = e'
  methods : ∀ e ∈ r.routes, e.methods =
    (rows.filter fun row => decide (row.1.places = e.pattern.places)).map
      fun row => (row.2.method, row.2.target)
  route : ∀ e ∈ r.routes, ∃ row ∈ rows, row.1.places = e.pattern.places ∧
    e.route = row.2.target.route
  compatible : rows.Pairwise Row.Compatible

theorem table_of_groupRows {rows : List (Row γ μ ρ)} {gs : List (Group γ μ ρ)}
    (h : groupRows rows = .ok gs) :
    Table rows ⟨(gs.map Group.entry).insertionSort
      fun e e' => e.pattern.precedence ≤ e'.pattern.precedence⟩ := by
  have hgrouped := grouped_of_groupRows h
  have hmem : ∀ e, e ∈ (gs.map Group.entry).insertionSort
      (fun e e' => e.pattern.precedence ≤ e'.pattern.precedence) → ∃ g ∈ gs, g.entry = e :=
    fun e he => mem_map.mp ((mem_insertionSort _).mp he)
  refine ⟨?_, fun row hrow => ?_, fun e he => ?_, fun e he e' he' heq => ?_, fun e he => ?_,
    fun e he => ?_, hgrouped.compatible⟩
  · have : Std.Total fun e e' : RouteEntry γ μ ρ => e.pattern.precedence ≤ e'.pattern.precedence :=
      ⟨fun e e' => le_total _ _⟩
    have : IsTrans (RouteEntry γ μ ρ) fun e e' => e.pattern.precedence ≤ e'.pattern.precedence :=
      ⟨fun _ _ _ => le_trans⟩
    exact pairwise_insertionSort _ _
  · obtain ⟨g, hg, hplaces⟩ := hgrouped.cover row hrow
    exact ⟨g.entry, (mem_insertionSort _).mpr (mem_map_of_mem hg), hplaces⟩
  · obtain ⟨g, hg, rfl⟩ := hmem e he
    exact hgrouped.source g hg
  · obtain ⟨g, hg, rfl⟩ := hmem e he
    obtain ⟨g', hg', rfl⟩ := hmem e' he'
    rw [inj_on_of_nodup_map hgrouped.distinct hg hg' heq]
  · obtain ⟨g, hg, rfl⟩ := hmem e he
    show g.targets.map (fun member => (member.method, member.target)) = _
    rw [hgrouped.members g hg, map_map]
    rfl
  · obtain ⟨g, hg, rfl⟩ := hmem e he
    obtain ⟨row, hrow, hplaces, hfirst⟩ := (hgrouped.mem_targets hg).mp mem_cons_self
    exact ⟨row, hrow, hplaces, by rw [hfirst]; rfl⟩

end Router

/-! ## The order of the handlers -/

theorem MountedHandler.parsed_spec {http : HttpHandler γ} {pattern : Pattern}
    (h : handler.parsed alphabet = .ok (http, pattern)) :
    ∃ text, Pattern.parse alphabet text = .ok pattern := by
  unfold MountedHandler.parsed at h
  split at h
  · cases h
  · split at h
    · cases h
    · simp only at h
      split at h
      · cases h
      · rename_i hparse
        split at h <;> cases h
        exact ⟨_, hparse⟩

theorem MountedHandler.row?_spec {covering : List (Covering μ ρ)} {row : Row γ μ ρ}
    (h : handler.row? alphabet defaultBodyLimit mount covering = some row) :
    (∃ http, handler.parsed alphabet = .ok (http, row.1)) ∧
      row.2.target.route = if mount = [] then row.1.raw else Pattern.join mount row.1.raw := by
  unfold MountedHandler.row? at h
  split at h
  · cases h
  · rename_i http pattern hparsed
    split at h <;> cases h
    exact ⟨⟨http, hparsed⟩, rfl⟩

namespace Router

variable {handlers handlers' : List (MountedHandler γ)} {r r' : Router γ μ ρ} {path : Text}

variable (alphabet) in
/-- The patterns of some handlers. -/
def patterns (handlers : List (MountedHandler γ)) : List Pattern :=
  handlers.filterMap fun handler => (handler.parsed alphabet).toOption.map (·.2)

theorem mem_rows {row : Row γ μ ρ} : row ∈ rows alphabet defaultBodyLimit mount stage handlers ↔
    ∃ h ∈ handlers, h.row? alphabet defaultBodyLimit mount stage.covering = some row :=
  mem_filterMap

/-- **Routes of one pattern but for names** have one pattern. -/
theorem pattern_eq_of_places {row row' : Row γ μ ρ}
    (hcompatible : (rows alphabet defaultBodyLimit mount stage handlers).Pairwise Row.Compatible)
    (hrow : row ∈ rows alphabet defaultBodyLimit mount stage handlers)
    (hrow' : row' ∈ rows alphabet defaultBodyLimit mount stage handlers)
    (h : row.1.places = row'.1.places) : row.1 = row'.1 := by
  by_cases heq : row = row'
  · rw [heq]
  · obtain ⟨_, -, hrow₀⟩ := mem_rows.mp hrow
    obtain ⟨_, -, hrow₁⟩ := mem_rows.mp hrow'
    obtain ⟨⟨_, hparsed⟩, -⟩ := MountedHandler.row?_spec hrow₀
    obtain ⟨⟨_, hparsed'⟩, -⟩ := MountedHandler.row?_spec hrow₁
    obtain ⟨_, hparse⟩ := MountedHandler.parsed_spec hparsed
    obtain ⟨_, hparse'⟩ := MountedHandler.parsed_spec hparsed'
    exact Pattern.eq_of_raw_eq hparse hparse' (hcompatible.forall hrow hrow' heq h).1

/-- **An accepted table**, with the handlers it was built of. -/
structure Built (alphabet : Alphabet) (defaultBodyLimit : ℕ) (mount : Text) (stage : Stage μ ρ)
    (handlers : List (MountedHandler γ)) (r : Router γ μ ρ) : Prop where
  alone : ∀ h ∈ handlers, (h.row? alphabet defaultBodyLimit mount stage.covering).isSome = true
  table : Table (rows alphabet defaultBodyLimit mount stage handlers) r

theorem built_of_build (h : build alphabet defaultBodyLimit mount stage handlers = .ok r) :
    Built alphabet defaultBodyLimit mount stage handlers r := by
  obtain ⟨halone, gs, hgs, rfl⟩ := build_ok_iff.mp h
  exact ⟨halone, table_of_groupRows hgs⟩

/-- **Any order of accepted handlers is accepted.** -/
theorem build_ok_of_perm (h : Built alphabet defaultBodyLimit mount stage handlers r)
    (hperm : handlers'.Perm handlers) :
    ∃ r', build alphabet defaultBodyLimit mount stage handlers' = .ok r' := by
  have hrows : (rows alphabet defaultBodyLimit mount stage handlers').Pairwise Row.Compatible :=
    (hperm.filterMap _).symm.pairwise h.table.compatible fun hsymm => symm hsymm
  obtain ⟨gs, hgs⟩ := groupRows_ok_of_compatible hrows
  exact ⟨_, build_ok_iff.mpr ⟨fun x hx => h.alone x (hperm.mem_iff.mp hx), gs, hgs, rfl⟩⟩

namespace Built

theorem mem_patterns_iff (h : Built alphabet defaultBodyLimit mount stage handlers r) :
    p ∈ patterns alphabet handlers ↔ ∃ e ∈ r.routes, e.pattern = p := by
  have hpatterns : p ∈ patterns alphabet handlers ↔
      ∃ row ∈ rows alphabet defaultBodyLimit mount stage handlers, row.1 = p := by
    constructor
    · intro hp
      obtain ⟨x, hx, hpattern⟩ := mem_filterMap.mp hp
      obtain ⟨row, hrow⟩ := Option.isSome_iff_exists.mp (h.alone x hx)
      obtain ⟨⟨http, hparsed⟩, -⟩ := MountedHandler.row?_spec hrow
      rw [hparsed] at hpattern
      exact ⟨row, mem_rows.mpr ⟨x, hx, hrow⟩, Option.some.inj hpattern⟩
    · rintro ⟨row, hrow, rfl⟩
      obtain ⟨x, hx, hrow⟩ := mem_rows.mp hrow
      obtain ⟨⟨http, hparsed⟩, -⟩ := MountedHandler.row?_spec hrow
      exact mem_filterMap.mpr ⟨x, hx, by rw [hparsed]; rfl⟩
  rw [hpatterns]
  constructor
  · rintro ⟨row, hrow, rfl⟩
    obtain ⟨e, he, hplaces⟩ := h.table.cover row hrow
    obtain ⟨row', hrow', hpattern⟩ := h.table.source e he
    refine ⟨e, he, ?_⟩
    rw [← hpattern] at hplaces ⊢
    exact pattern_eq_of_places h.table.compatible hrow' hrow hplaces
  · rintro ⟨e, he, rfl⟩
    exact h.table.source e he

variable {e : RouteEntry γ μ ρ}

section

variable (h : Built alphabet defaultBodyLimit mount stage handlers r) {e' : RouteEntry γ μ ρ}
include h

/-- The routes of an entry are those of its pattern. -/
theorem methods_eq (he : e ∈ r.routes) : e.methods =
      ((rows alphabet defaultBodyLimit mount stage handlers).filter
        fun row => decide (row.1.places = e.pattern.places)).map
          fun row => (row.2.method, row.2.target) := h.table.methods e he

/-- An entry answers a method with one handler. -/
theorem method_unique (he : e ∈ r.routes) {m : Method} {x y : Method × RouteTarget γ μ ρ}
    (hx : x ∈ e.methods) (hy : y ∈ e.methods) (hxm : x.1 = m) (hym : y.1 = m) : x = y := by
  rw [h.methods_eq he] at hx hy
  obtain ⟨row, hrow, rfl⟩ := mem_map.mp hx
  obtain ⟨row', hrow', rfl⟩ := mem_map.mp hy
  obtain ⟨hrow, hplaces⟩ := mem_filter.mp hrow
  obtain ⟨hrow', hplaces'⟩ := mem_filter.mp hrow'
  by_cases heq : row = row'
  · rw [heq]
  · have hsame := (of_decide_eq_true hplaces).trans (of_decide_eq_true hplaces').symm
    exact absurd (hxm.trans hym.symm) (h.table.compatible.forall hrow hrow' heq hsame).2

/-- The route of an entry, as the host sees it. -/
theorem route_eq (he : e ∈ r.routes) :
    e.route = if mount = [] then e.pattern.raw else Pattern.join mount e.pattern.raw := by
  obtain ⟨row, hrow, hplaces, hroute⟩ := h.table.route e he
  obtain ⟨row', hrow', hpattern⟩ := h.table.source e he
  obtain ⟨_, -, hspec⟩ := mem_rows.mp hrow
  rw [hroute, (MountedHandler.row?_spec hspec).2]
  rw [← hpattern] at hplaces ⊢
  rw [pattern_eq_of_places h.table.compatible hrow hrow' hplaces]

/-- **Two tables of the same handlers** answer one pattern alike. -/
theorem target_eq (h' : Built alphabet defaultBodyLimit mount stage handlers' r')
    (hperm : handlers'.Perm handlers) (he : e ∈ r.routes) (he' : e' ∈ r'.routes)
    (hpattern : e'.pattern = e.pattern) (method : Method) : e'.target method = e.target method := by
  have hmethods : e'.methods.Perm e.methods := by
    rw [h.methods_eq he, h'.methods_eq he', hpattern]
    exact ((hperm.filterMap _).filter _).map _
  unfold RouteEntry.target
  rw [hmethods.find?_eq_of_unique fun x hx y hy hxm hym =>
    h'.method_unique he' hx hy (beq_iff_eq.mp hxm) (beq_iff_eq.mp hym)]

/-- **The entry that decides** ranks before every other that matches. -/
theorem deciding_le (he : r.deciding path = some e) (he' : e' ∈ r.routes)
    (hmatch : (e'.pattern.matchesPath path).isSome = true) :
    e.pattern.precedence ≤ e'.pattern.precedence := by
  rcases h.table.sorted.rel_of_find? he he' hmatch with rfl | hle
  · exact le_rfl
  · exact hle

end

end Built

theorem mem_of_deciding {e : RouteEntry γ μ ρ} (h : r.deciding path = some e) :
    e ∈ r.routes ∧ (e.pattern.matchesPath path).isSome = true := by
  have hmatch := find?_some h
  exact ⟨mem_of_find?_eq_some h, hmatch⟩

/-- The answer is the deciding entry's. -/
theorem route_eq_deciding (r : Router γ μ ρ) (method : Method) (path : Text) :
    r.route method path = ((r.deciding path).bind fun e =>
      (e.pattern.matchesPath path).map fun params => e.answer method params).getD .notFound := by
  unfold route deciding
  generalize r.routes = entries
  induction entries with
  | nil => rfl
  | cons e entries ih =>
    rw [routeFrom, find?_cons]
    cases hmatch : e.pattern.matchSplit (normalize path) (split (normalize path)) with
    | none =>
      rw [show (e.pattern.matchesPath path) = none from hmatch]
      exact ih
    | some params =>
      rw [show (e.pattern.matchesPath path) = some params from hmatch]
      simp only [Option.isSome_some, Option.bind_some]
      rw [show (e.pattern.matchesPath path) = some params from hmatch]
      rfl

end Router

/-- An answer up to the order of the methods in its `Allow`. -/
def Routed.unordered : Routed γ μ ρ → Routed γ μ ρ
  | .methodNotAllowed _ => .methodNotAllowed ""
  | .options _ route => .options "" route
  | routed => routed

theorem RouteEntry.answer_unordered {e e' : RouteEntry γ μ ρ}
    (htarget : ∀ m, e'.target m = e.target m)
    (hroute : e'.route = e.route) (method : Method) (params : PathParams) :
    (e'.answer method params).unordered = (e.answer method params).unordered := by
  unfold RouteEntry.answer
  rw [htarget, htarget, hroute]
  split
  · rfl
  · split
    · rfl
    · split <;> rfl

namespace Router

variable {handlers handlers' : List (MountedHandler γ)} {r r' : Router γ μ ρ} {path : Text}

/-- No two patterns of one precedence match the path. -/
def Ranked (alphabet : Alphabet) (handlers : List (MountedHandler γ)) (path : Text) : Prop :=
  ∀ p ∈ patterns alphabet handlers, ∀ q ∈ patterns alphabet handlers,
    p.precedence = q.precedence → (p.matchesPath path).isSome = true →
      (q.matchesPath path).isSome = true → p = q

/-- **Patterns are ranked on a path** unless two of them are twins there. -/
theorem ranked_iff (h : Built alphabet defaultBodyLimit mount stage handlers r) :
    Ranked alphabet handlers path ↔
      ∀ p ∈ patterns alphabet handlers, ∀ q ∈ patterns alphabet handlers, ¬ p.Twins q path := by
  refine ⟨fun hranked p hp q hq htwins => ?_, fun hnone p hp q hq hprecedence hpm hqm => ?_⟩
  · obtain ⟨hprecedence, hpm, hqm, i, text, text', _, _, hi, hi', -, hne, -⟩ := htwins
    rw [hranked p hp q hq hprecedence hpm hqm] at hi
    exact hne (Segment.static.inj (Option.some.inj (hi.symm.trans hi')))
  · have hplaces := (Pattern.conflicts_or_twins hprecedence hpm hqm).resolve_right (hnone p hp q hq)
    obtain ⟨e, he, rfl⟩ := h.mem_patterns_iff.mp hp
    obtain ⟨e', he', rfl⟩ := h.mem_patterns_iff.mp hq
    rw [h.table.distinct e he e' he' hplaces]

section

variable (h : Built alphabet defaultBodyLimit mount stage handlers r)
  (h' : Built alphabet defaultBodyLimit mount stage handlers' r') (hperm : handlers'.Perm handlers)
include h h' hperm

/-- **The order decides nothing** where the patterns are ranked. -/
theorem deciding_perm (hranked : Ranked alphabet handlers path) :
    (r'.deciding path).map (·.pattern) = (r.deciding path).map (·.pattern) := by
  have hpatterns : ∀ p, p ∈ patterns alphabet handlers' ↔ p ∈ patterns alphabet handlers :=
    fun p => (hperm.filterMap _).mem_iff
  -- what one table has the other has
  have hhas : ∀ {e}, e ∈ r.routes → ∃ e' ∈ r'.routes, e'.pattern = e.pattern := fun he =>
    h'.mem_patterns_iff.mp ((hpatterns _).mpr (h.mem_patterns_iff.mpr ⟨_, he, rfl⟩))
  have hhas' : ∀ {e'}, e' ∈ r'.routes → ∃ e ∈ r.routes, e.pattern = e'.pattern := fun he' =>
    h.mem_patterns_iff.mp ((hpatterns _).mp (h'.mem_patterns_iff.mpr ⟨_, he', rfl⟩))
  cases hdec : r.deciding path with
  | none =>
    cases hdec' : r'.deciding path with
    | none => rfl
    | some =>
      obtain ⟨he', hmatch⟩ := mem_of_deciding hdec'
      obtain ⟨e, he, hpattern⟩ := hhas' he'
      rw [← hpattern] at hmatch
      exact absurd hmatch (find?_eq_none.mp hdec e he)
  | some e =>
    obtain ⟨he, hmatch⟩ := mem_of_deciding hdec
    obtain ⟨x, hx, hpattern⟩ := hhas he
    have hxmatch : (x.pattern.matchesPath path).isSome = true := hpattern ▸ hmatch
    cases hdec' : r'.deciding path with
    | none => exact absurd hxmatch (find?_eq_none.mp hdec' x hx)
    | some e' =>
      obtain ⟨he', hmatch'⟩ := mem_of_deciding hdec'
      obtain ⟨y, hy, hpattern'⟩ := hhas' he'
      have hymatch : (y.pattern.matchesPath path).isSome = true := hpattern' ▸ hmatch'
      have hle : e.pattern.precedence ≤ e'.pattern.precedence := by
        rw [← hpattern']
        exact h.deciding_le hdec hy hymatch
      have hle' : e'.pattern.precedence ≤ e.pattern.precedence := by
        rw [← hpattern]
        exact h'.deciding_le hdec' hx hxmatch
      refine congrArg some (hranked _ ?_ _ ?_ (le_antisymm hle' hle) hmatch' hmatch)
      · exact (hpatterns _).mp (h'.mem_patterns_iff.mpr ⟨e', he', rfl⟩)
      · exact h.mem_patterns_iff.mpr ⟨e, he, rfl⟩

/-- With one deciding pattern, two tables of the same handlers answer alike. -/
theorem route_perm
    (hdeciding : (r'.deciding path).map (·.pattern) = (r.deciding path).map (·.pattern))
    (method : Method) : (r'.route method path).unordered = (r.route method path).unordered := by
  rw [route_eq_deciding, route_eq_deciding]
  cases hdec : r.deciding path with
  | none =>
    rw [hdec] at hdeciding
    rw [Option.map_eq_none_iff.mp hdeciding]
  | some =>
    rw [hdec] at hdeciding
    obtain ⟨e', hdec', hpattern⟩ := Option.map_eq_some_iff.mp hdeciding
    obtain ⟨he, hmatch⟩ := mem_of_deciding hdec
    obtain ⟨he', -⟩ := mem_of_deciding hdec'
    rw [hdec']
    obtain ⟨params, hparams⟩ := Option.isSome_iff_exists.mp hmatch
    simp only [Option.bind_some, hpattern, hparams, Option.map_some, Option.getD_some]
    refine RouteEntry.answer_unordered (h.target_eq h' hperm he he' hpattern) ?_ method params
    rw [h.route_eq he, h'.route_eq he', hpattern]

end

/-- **Routing does not depend on the order of the handlers, and the pattern that ranks
first decides**, exactly on the paths on which no two patterns are twins. -/
theorem route_order_iff (h : build alphabet defaultBodyLimit mount stage handlers = .ok r)
    (path : Text) :
    ((∀ handlers', handlers'.Perm handlers → ∃ r',
        build alphabet defaultBodyLimit mount stage handlers' = .ok r' ∧
        (r'.deciding path).map (·.pattern) = (r.deciding path).map (·.pattern) ∧
        ∀ method, (r'.route method path).unordered = (r.route method path).unordered) ∧
      (∀ e, r.deciding path = some e → e.pattern ∈ patterns alphabet handlers ∧
        ∀ p ∈ patterns alphabet handlers, (p.matchesPath path).isSome = true →
          e.pattern.precedence ≤ p.precedence) ∧
      Ranked alphabet handlers path) ↔
    ∀ p ∈ patterns alphabet handlers, ∀ q ∈ patterns alphabet handlers, ¬ p.Twins q path := by
  have hbuilt := built_of_build h
  rw [← ranked_iff hbuilt]
  refine ⟨fun hall => hall.2.2, fun hranked => ⟨fun handlers' hperm => ?_, fun e he => ?_, hranked⟩⟩
  · obtain ⟨r', hr'⟩ := build_ok_of_perm hbuilt hperm
    have hbuilt' := built_of_build hr'
    have hdeciding := deciding_perm hbuilt hbuilt' hperm hranked
    exact ⟨r', hr', hdeciding, route_perm hbuilt hbuilt' hperm hdeciding⟩
  · obtain ⟨hmem, -⟩ := mem_of_deciding he
    refine ⟨hbuilt.mem_patterns_iff.mpr ⟨e, hmem, rfl⟩, fun p hp hmatch => ?_⟩
    obtain ⟨e', he', rfl⟩ := hbuilt.mem_patterns_iff.mp hp
    exact hbuilt.deciding_le he he' hmatch

end Router

end Accepted

namespace Router

/-- A handler that answers `GET` on a route. -/
def getOn (name : String) (route : Text) : MountedHandler Unit where
  controller := "Files"
  name := name
  http := some ⟨.get, (), []⟩
  route := some route
  start := none
  bodyLimit := none
  timeout := none
  timeoutOnMethod := false

/-- The stage without entries. -/
def noStage : Stage Unit Unit where
  covering := []
  reached := []
  shared := []
  coherent := nofun
  built := nofun

/-- The name of the handler a request is answered by. -/
def answeredBy (routed : Routed Unit Unit Unit) : Option String :=
  match routed with
  | .found target _ _ => some target.handler.name
  | _ => none

/-- Two routes of different precedence. -/
def usersRoutes : List (MountedHandler Unit) :=
  [getOn "show" ['/', '{', 'x', '}'], getOn "me" ['/', 'm']]

theorem usersRoutes_not_twins : ∀ p ∈ patterns Stage.ascii usersRoutes,
    ∀ q ∈ patterns Stage.ascii usersRoutes, ¬ p.Twins q ['/', 'm'] := by
  have hpatterns : (patterns Stage.ascii usersRoutes).map (·.segments) =
      [[.param ['x']], [.static ['m']]] := rfl
  intro p hp q hq htwins
  have hp' := mem_map_of_mem (f := fun p : Pattern => p.segments) hp
  have hq' := mem_map_of_mem (f := fun p : Pattern => p.segments) hq
  rw [hpatterns] at hp' hq'
  obtain ⟨-, -, -, i, text, text', _, _, hi, hi', -, hne, -⟩ := htwins
  rw [mem_pair] at hp' hq'
  rcases hp' with hp' | hp' <;> rcases hq' with hq' | hq' <;> rw [hp'] at hi <;> rw [hq'] at hi' <;>
    rcases i with _ | i <;> cases hi <;> cases hi'
  exact hne rfl

theorem route_order_users :
    ∃ r, build Stage.ascii 0 [] noStage usersRoutes = .ok r ∧
      answeredBy (r.route .get ['/', 'm']) = some "me" ∧
      Ranked Stage.ascii usersRoutes ['/', 'm'] := by
  have hbuild : build Stage.ascii 0 [] noStage usersRoutes = .ok _ := rfl
  exact ⟨_, hbuild, rfl, ((route_order_iff hbuild ['/', 'm']).mpr usersRoutes_not_twins).2.2⟩

/-- **Two handlers of which the first one mounted answers**: the routes `/%25` and
`/%2525` both match the path `/%25`, one decoded and one as sent. -/
theorem first_mounted :
    ∃ r r', build Stage.ascii 0 [] noStage
          [getOn "one" ['/', '%', '2', '5'], getOn "two" ['/', '%', '2', '5', '2', '5']] = .ok r ∧
      build Stage.ascii 0 [] noStage
          [getOn "two" ['/', '%', '2', '5', '2', '5'], getOn "one" ['/', '%', '2', '5']] = .ok r' ∧
      hasDotSegment ['/', '%', '2', '5'] = false ∧ hasBackslash ['/', '%', '2', '5'] = false ∧
      answeredBy (r.route .get ['/', '%', '2', '5']) = some "one" ∧
      answeredBy (r'.route .get ['/', '%', '2', '5']) = some "two" :=
  ⟨_, _, rfl, rfl, by decide, by decide, rfl, rfl⟩

end Router

end Ulo.Http
