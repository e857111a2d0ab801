import Ulo.Http.Pattern

/-!
# The scoped stage before dispatch

Entries of the stage before dispatch are scoped: an entry runs for the request paths
one of its scopes matches and none of its exclusions does (`Filter.admits`). When the
server prepares, each route takes the entries that concern it, once: an entry is left
out where no scope shares a path with the route or an exclusion matches the route
whole, and it runs unchecked where a scope matches every path of the route and no
exclusion any (`Stage.scopedFor`). Routes that take the same entries share one stage.

The comparison is of patterns, the check of a request is of its path. They agree –
whatever a scope covers of the route it covers of each of its paths – but for one
class of paths. A scope *strays* from the route on a path (`ScopePattern.Strays`)
where some piece of the path is the scope's static segment as sent and the route's
once decoded, or the other way round. The two patterns then share that path without
overlapping, and an entry is skipped that was to run, or an exclusion with it.

Whether an entry runs on every request of a route (`Stage.runsOnEveryRequest`) is asked of the
patterns alone too. The answer is wrong where an exclusion strays, and where it ends in `*` on an
empty piece, which the `*` takes and the rest of an earlier route does not (`excluded_anyway`).
-/

namespace Ulo.Http

open List

variable {μ ρ : Type} {segments : List Segment} {text : Text}

/-- An entry as it was declared: its module, the declaration it is in and its place
there. -/
structure Step (μ : Type) where
  module : μ
  declaration : ℕ
  index : ℕ

/-- What identifies an entry's declaration. -/
def Step.key (step : Step μ) : ℕ × ℕ := (step.declaration, step.index)

/-- The request paths a scoped entry runs for. -/
structure Filter where
  scope : List ScopePattern
  exclude : List ScopePattern

def Filter.admits (self : Filter) (path : Text) : Bool :=
  self.scope.any (·.coversPath path) && !self.exclude.any (·.coversPath path)

/-- A scoped entry as it runs, with the scopes it matches and excludes. -/
structure Covering (μ ρ : Type) where
  step : Step μ
  runnable : ρ
  scope : List ScopePattern
  exclude : List ScopePattern

namespace Covering

def filter (self : Covering μ ρ) : Filter := ⟨self.scope, self.exclude⟩

/-- The entry is in the stage of a route: one of its scopes shares a path with the
route and its exclusions do not match the route whole. -/
def concerns (pattern : Pattern) (self : Covering μ ρ) : Bool :=
  !self.exclude.any (·.covers pattern) && self.scope.any (·.overlaps pattern)

/-- It runs unchecked: a scope matches every path of the route, and no exclusion any. -/
def whole (pattern : Pattern) (self : Covering μ ρ) : Bool :=
  self.scope.any (·.covers pattern) && !self.exclude.any (·.overlaps pattern)

/-- Its check on each request, if it has one. -/
def check (pattern : Pattern) (self : Covering μ ρ) : Option Filter :=
  if self.whole pattern then none else some self.filter

/-- The flags of its scopes that have reached a route, past one more. -/
def reach (pattern : Pattern) (self : Covering μ ρ) (reached : List Bool) : List Bool :=
  if self.exclude.any (·.covers pattern) then reached
  else (self.scope.zip reached).map fun (scope, flag) =>
    flag || scope.overlaps pattern && !self.exclude.any (·.contains scope)

end Covering

/-- **The entries one route runs after it matched**, in declaration order, each with
the check that is made per request. -/
structure ScopedStage (μ ρ : Type) where
  steps : List (Step μ)
  filters : List (Option Filter)
  run : List ρ

namespace ScopedStage

/-- Whether this stage holds exactly `steps` with `filters`: the same declarations, each
checked per request or not alike. -/
def holds (self : ScopedStage μ ρ) (steps : List (Step μ))
    (filters : List (Option Filter)) : Bool :=
  self.steps.length == steps.length &&
  (self.steps.zip steps).all (fun (held, wanted) => held.key == wanted.key) &&
  (self.filters.zip filters).all fun (held, wanted) => held.isSome == wanted.isSome

/-- The entries a request on `path` runs, in order. -/
def runnableFor (self : ScopedStage μ ρ) (path : Text) : List ρ :=
  if self.filters.all (·.isNone) then self.run
  else ((self.run.zip self.filters).filter fun (_, filter) => filter.all (·.admits path)).map (·.1)

/-- The stage of some entries. -/
def ofCovered (pattern : Pattern) (covered : List (Covering μ ρ)) : ScopedStage μ ρ where
  steps := covered.map (·.step)
  filters := covered.map (·.check pattern)
  run := covered.map (·.runnable)

end ScopedStage

/-- The entries of a route's stage. -/
def coveredBy (covering : List (Covering μ ρ)) (pattern : Pattern) : List (Covering μ ρ) :=
  covering.filter (·.concerns pattern)

/-- **The stage**: the scoped entries, the scopes that have reached a route, and the
stages handed out so far. Entries of one declaration have its scopes. -/
structure Stage (μ ρ : Type) where
  covering : List (Covering μ ρ)
  reached : List (List Bool)
  shared : List (ScopedStage μ ρ)
  coherent : ∀ e ∈ covering, ∀ e' ∈ covering, e.step.key = e'.step.key → e.filter = e'.filter
  built : ∀ stage ∈ shared, ∃ pattern, stage = .ofCovered pattern (coveredBy covering pattern)

namespace Stage

/-- **The scoped stage of a route**, the same one for routes covered by the same set. -/
def scopedFor (self : Stage μ ρ) (pattern : Pattern) : Stage μ ρ × ScopedStage μ ρ :=
  let covered := coveredBy self.covering pattern
  let fresh := ScopedStage.ofCovered pattern covered
  let reached := (self.covering.zip self.reached).map fun (entry, flags) =>
    entry.reach pattern flags
  match self.shared.find? (·.holds fresh.steps fresh.filters) with
  | some stage => ({ self with reached := reached }, stage)
  | none =>
    ({ self with
      reached := reached
      shared := self.shared ++ [fresh]
      built := fun stage hstage => by
        rcases mem_snoc.mp hstage with hold | hnew
        · exact self.built stage hold
        · exact ⟨pattern, hnew⟩ }, fresh)

/-- The scoped entry at `index` of a declaration. -/
def entry (self : Stage μ ρ) (declaration index : ℕ) : Option (Covering μ ρ) :=
  self.covering.find? fun entry => entry.step.key = (declaration, index)

/-- Whether an entry runs on every request that reaches the route `pattern`, `before` being the
patterns the router tries first. -/
def runsOnEveryRequest (self : Stage μ ρ) (declaration index : ℕ) (pattern : Pattern)
    (before : List Pattern) : Bool :=
  match self.entry declaration index with
  | none => false
  | some entry =>
    entry.scope.any (·.covers pattern) && entry.exclude.all fun exclude =>
      match exclude.sharedWith pattern with
      | none => true
      | some shared => before.any (·.contains shared)

/-- The entries that a request on `path` runs on a route. -/
def ran (self : Stage μ ρ) (pattern : Pattern) (path : Text) : List (Covering μ ρ) :=
  (coveredBy self.covering pattern).filter fun entry =>
    (entry.check pattern).all (·.admits path)

end Stage

/-! ## A shared stage is the route's own -/

namespace Covering

variable {e e' : Covering μ ρ}

theorem concerns_congr (h : e.filter = e'.filter) (pattern : Pattern) :
    e.concerns pattern = e'.concerns pattern := by
  obtain ⟨hscope, hexclude⟩ := Filter.mk.inj h
  rw [concerns, concerns, hscope, hexclude]

theorem check_congr {pattern pattern' : Pattern}
    (h : (e.check pattern).isSome = (e.check pattern').isSome) :
    e.check pattern = e.check pattern' := by
  unfold check at h ⊢
  cases hwhole : e.whole pattern <;> cases hwhole' : e.whole pattern' <;>
    rw [hwhole, hwhole'] at h <;> first | rfl | cases h

end Covering

namespace Stage

variable {self : Stage μ ρ} {pattern : Pattern} {path : Text}

/-- **A stage that holds what a route asks for** is the route's own. -/
theorem eq_of_holds {stage : ScopedStage μ ρ} (hstage : stage ∈ self.shared)
    (h : stage.holds ((coveredBy self.covering pattern).map (·.step))
      ((coveredBy self.covering pattern).map (·.check pattern)) = true) :
    stage = .ofCovered pattern (coveredBy self.covering pattern) := by
  obtain ⟨pattern', rfl⟩ := self.built stage hstage
  simp only [ScopedStage.holds, ScopedStage.ofCovered, Bool.and_eq_true, beq_iff_eq,
    all_zip_iff] at h
  obtain ⟨⟨hlength, hkeys⟩, hchecks⟩ := h
  -- the same declarations are the same entries, since their filters decide
  have hsame : coveredBy self.covering pattern' = coveredBy self.covering pattern := by
    refine filter_eq_of_map_eq (·.step.key)
      (fun e he e' he' hkey => Covering.concerns_congr (self.coherent e he e' he' hkey) _)
      (fun e he e' he' hkey => Covering.concerns_congr (self.coherent e he e' he' hkey) _) ?_
    have hmap := map_eq_map_of_getElem? hlength hkeys
    rwa [map_map, map_map] at hmap
  rw [hsame] at hchecks ⊢
  have hcheck : (coveredBy self.covering pattern).map (·.check pattern') =
      (coveredBy self.covering pattern).map (·.check pattern) := by
    refine map_eq_map_of_getElem? rfl fun i e e' he he' => ?_
    cases he.symm.trans he'
    refine Covering.check_congr (hchecks i _ _ ?_ ?_)
    · rw [getElem?_map, he]
      rfl
    · rw [getElem?_map, he]
      rfl
  rw [ScopedStage.ofCovered, hcheck]
  rfl

/-- **The stage of a route**, shared or not, holds the entries that concern it. -/
theorem scopedFor_eq (self : Stage μ ρ) (pattern : Pattern) :
    (self.scopedFor pattern).2 = .ofCovered pattern (coveredBy self.covering pattern) := by
  unfold scopedFor
  simp only
  split
  · rename_i hfound
    have hholds := find?_some hfound
    exact eq_of_holds (mem_of_find?_eq_some hfound) hholds
  · rfl

/-- The stage keeps its entries. -/
theorem covering_scopedFor (self : Stage μ ρ) (pattern : Pattern) :
    (self.scopedFor pattern).1.covering = self.covering := by
  unfold scopedFor
  simp only
  split <;> rfl

/-- **What a request runs**, by the stage of its route. -/
theorem runnableFor_scopedFor (self : Stage μ ρ) (pattern : Pattern) (path : Text) :
    (self.scopedFor pattern).2.runnableFor path = (self.ran pattern path).map (·.runnable) := by
  rw [scopedFor_eq, ran]
  generalize coveredBy self.covering pattern = covered
  unfold ScopedStage.runnableFor ScopedStage.ofCovered
  simp only
  split
  · -- no entry has a check
    rename_i hnone
    rw [filter_eq_self.mpr fun entry hentry => ?_]
    have hcheck := all_eq_true.mp hnone _ (mem_map_of_mem hentry)
    rw [Option.isNone_iff_eq_none.mp hcheck]
    rfl
  · rw [zip_map', filter_map, map_map]
    rfl

end Stage

/-! ## Where the two readings part -/

/-- A static segment is one of the shape's. -/
theorem shapeOf_static {i : ℕ} :
    (shapeOf segments).fixed[i]? = some (.static text) ↔ segments[i]? = some (.static text) := by
  unfold shapeOf
  split
  · rename_i hlast
    show segments.dropLast[i]? = _ ↔ _
    rw [getElem?_dropLast]
    split
    · rfl
    · refine iff_of_false nofun fun hstatic => ?_
      -- the only segment past the shape's is the rest
      have hlt := (List.getElem?_eq_some_iff.mp hstatic).1
      rw [List.getLast?_eq_getElem?, show segments.length - 1 = i by omega, hstatic] at hlast
      cases hlast
  · rfl

/-- **What a shape contains** it takes. -/
theorem Shape.Takes.of_contains {shape other : Shape} {pieces : List (ℕ × Text)}
    (h : other.Takes pieces) (hcontains : shape.contains other = true) : shape.Takes pieces := by
  rw [Shape.contains, Bool.and_eq_true, all_zip_iff] at hcontains
  obtain ⟨hfits, hpairs⟩ := hcontains
  have hlong := h.long
  unfold Shape.Long at hlong
  have hlength : shape.fixed.length ≤ other.fixed.length ∧ shape.Long pieces.length := by
    unfold Shape.Long
    cases hs : shape.isOpen <;> cases hp : other.isOpen <;>
      simp only [hs, hp, decide_eq_true_eq, Bool.false_eq_true, if_true, if_false] at hfits hlong ⊢
    · exact ⟨Nat.le_of_eq hfits.symm, hlong.trans hfits⟩
    · exact ⟨Nat.le_of_lt hfits, hlong ▸ hfits⟩
    · exact ⟨hfits, Nat.lt_of_le_of_lt hfits hlong⟩
  refine ⟨hlength.2, fun i segment hs => ?_⟩
  have hi : i < other.fixed.length :=
    Nat.lt_of_lt_of_le (List.getElem?_eq_some_iff.mp hs).1 hlength.1
  obtain ⟨hfixed, offset, piece, hpiece, htake⟩ := h.takes i _ (List.getElem?_eq_getElem hi)
  have hpair := hpairs i segment _ hs (getElem?_eq_getElem hi)
  cases segment with
  | static text =>
    cases hroute : other.fixed[i] with
    | static text' =>
      rw [hroute] at hpair hfixed htake
      rw [show text = text' from beq_iff_eq.mp hpair]
      exact ⟨hfixed, offset, piece, hpiece, htake⟩
    | param | rest => rw [hroute] at hpair; cases hpair
  | param =>
    refine ⟨trivial, offset, piece, hpiece, ?_⟩
    rw [Segment.takes, Bool.not_eq_true', isEmpty_eq_false_iff]
    exact hfixed.ne_nil htake
  | rest => cases hpair

namespace ScopePattern

variable {scope : ScopePattern} {pattern : Pattern} {path : Text}

/-- **A scope strays from a route on a path**: it matches the path, where a piece is its
static segment as sent and the route's decoded, or the other way round. -/
def Strays (scope : ScopePattern) (pattern : Pattern) (path : Text) : Prop :=
  scope.coversPath path = true ∧
    ∃ (i : ℕ) (text text' : Text) (offset : ℕ) (piece : Text),
      scope.segments[i]? = some (.static text) ∧ pattern.segments[i]? = some (.static text') ∧
      (split (normalize path))[i]? = some (offset, piece) ∧ SentAs piece text text'

section

variable (h : (pattern.matchesPath path).isSome = true)
include h

theorem takes_of_matchesPath : pattern.shape.Takes (split (normalize path)) :=
  ((matchFrom_iff pattern.wellformed).mp h).1

omit h in
/-- A scope overlaps what it covers. -/
theorem overlaps_of_covers (h : scope.covers pattern = true) : scope.overlaps pattern = true := by
  rw [covers, Shape.contains, Bool.and_eq_true, all_zip_iff] at h
  rw [overlaps, Shape.overlaps, Bool.and_eq_true, all_zip_iff]
  refine ⟨?_, fun i segment segment' hs hp => ?_⟩
  · have hfits := h.1
    cases hs : scope.shape.isOpen <;> cases hp : pattern.shape.isOpen <;> rw [hs, hp] at hfits <;>
      first | exact hfits | rfl | cases hfits
  · have hpair := h.2 i segment segment' hs hp
    cases segment <;> cases segment' <;> first | exact hpair | rfl

/-- **What a scope covers of a route** it covers of its paths. -/
theorem coversPath_of_covers (hcovers : scope.covers pattern = true) :
    scope.coversPath path = true := by
  obtain ⟨hlong, htakes⟩ := (takes_of_matchesPath h).of_contains hcovers
  refine coversPath_iff.mpr ⟨hlong, fun i segment offset piece hs hp => ?_⟩
  obtain ⟨hfixed, offset', piece', hp', htake⟩ := htakes i segment hs
  cases hp.symm.trans hp'
  refine ⟨?_, htake⟩
  rintro name rfl
  exact hfixed

/-- **A scope that matches a path of a route** overlaps the route, or strays. -/
theorem strays_iff :
    scope.Strays pattern path ↔ scope.coversPath path = true ∧ scope.overlaps pattern = false := by
  refine and_congr_right fun hcovers => ?_
  have htakes := takes_of_matchesPath h
  obtain ⟨hlong, hscope⟩ := coversPath_iff.mp hcovers
  have hroute := htakes.long
  unfold Shape.Long at hlong hroute
  rw [overlaps, Shape.overlaps, Bool.and_eq_false_iff, ← Bool.not_eq_true, ← Bool.not_eq_true,
    all_zip_iff]
  constructor
  · rintro ⟨i, text, text', offset, piece, hs, hp, -, hne, -⟩
    exact .inr fun hall => hne (beq_iff_eq.mp (hall i _ _ hs (shapeOf_static.mpr hp)))
  · rintro (hfits | hpairs)
    · -- both are as long as the path
      refine absurd ?_ hfits
      cases hs : scope.shape.isOpen <;> cases hp : pattern.shape.isOpen <;>
        simp only [hs, hp, Bool.false_eq_true, if_true, if_false, decide_eq_true_eq]
          at hlong hroute ⊢ <;> omega
    · push Not at hpairs
      obtain ⟨i, segment, segment', hs, hp, hpair⟩ := hpairs
      obtain ⟨-, offset, piece, hpiece, htake⟩ := htakes.takes i segment' hp
      obtain ⟨-, htake'⟩ := hscope i segment offset piece hs hpiece
      cases segment with
      | static text =>
        cases segment' with
        | static text' =>
          have hne : text ≠ text' := fun heq => hpair (beq_iff_eq.mpr heq)
          refine ⟨i, text, text', offset, piece, hs, shapeOf_static.mp hp, hpiece, ?_⟩
          exact (eq_or_sentAs htake' htake).resolve_left hne
        | param | rest => exact absurd rfl hpair
      | param => exact absurd rfl hpair
      | rest => exact absurd rfl hpair

end

end ScopePattern

namespace Covering

variable {e : Covering μ ρ} {pattern : Pattern} {path : Text}

/-- **A route's stage decides an entry as its path does**: where a scope strays and the
path is not excluded, some scope overlaps the route still, and where an exclusion
strays and a scope covers the route, some exclusion overlaps it still. -/
def Decided (e : Covering μ ρ) (pattern : Pattern) (path : Text) : Prop :=
  ((∃ scope ∈ e.scope, scope.Strays pattern path) →
    (∀ scope ∈ e.exclude, scope.coversPath path = false) →
      ∃ scope ∈ e.scope, scope.overlaps pattern = true) ∧
  ((∃ scope ∈ e.exclude, scope.Strays pattern path) →
    (∃ scope ∈ e.scope, scope.covers pattern = true) →
      ∃ scope ∈ e.exclude, scope.overlaps pattern = true)

/-- Whether an entry of the route runs. -/
def runs (e : Covering μ ρ) (pattern : Pattern) (path : Text) : Bool :=
  e.concerns pattern && (e.check pattern).all (·.admits path)

theorem check_all (e : Covering μ ρ) (pattern : Pattern) (path : Text) :
    (e.check pattern).all (·.admits path) = (e.whole pattern || e.filter.admits path) := by
  unfold check
  cases e.whole pattern <;> rfl

theorem runs_iff : e.runs pattern path = true ↔
    ((∀ scope ∈ e.exclude, scope.covers pattern = false) ∧
      ∃ scope ∈ e.scope, scope.overlaps pattern = true) ∧
    ((∃ scope ∈ e.scope, scope.covers pattern = true) ∧
        (∀ scope ∈ e.exclude, scope.overlaps pattern = false) ∨
      e.filter.admits path = true) := by
  simp only [runs, check_all, concerns, whole, Bool.and_eq_true, Bool.or_eq_true, Bool.not_eq_true',
    any_eq_true, any_eq_false, Bool.not_eq_true]

theorem admits_iff : e.filter.admits path = true ↔
    (∃ scope ∈ e.scope, scope.coversPath path = true) ∧
      ∀ scope ∈ e.exclude, scope.coversPath path = false := by
  simp only [Filter.admits, filter, Bool.and_eq_true, Bool.not_eq_true', any_eq_true,
    any_eq_false, Bool.not_eq_true]

/-- **Where an entry is decided as its path decides it.** -/
theorem runs_eq_admits_iff (h : (pattern.matchesPath path).isSome = true) :
    e.runs pattern path = e.filter.admits path ↔ e.Decided pattern path := by
  have hpart : ∀ {scope : ScopePattern}, scope.coversPath path = true →
      scope.overlaps pattern = true ∨ scope.Strays pattern path := fun hcovers => by
    by_contra hnot
    rw [not_or, Bool.not_eq_true] at hnot
    exact hnot.2 ((ScopePattern.strays_iff h).mpr ⟨hcovers, hnot.1⟩)
  rw [Bool.eq_iff_iff, runs_iff, admits_iff]
  constructor
  · intro hiff
    refine ⟨fun ⟨scope, hscope, hstrays⟩ hexclude => ?_,
      fun ⟨x, hx, hstrays⟩ ⟨scope, hscope, hcovers⟩ => ?_⟩
    · exact (hiff.mpr ⟨⟨scope, hscope, hstrays.1⟩, hexclude⟩).1.2
    · by_contra hnone
      have hfree : ∀ y ∈ e.exclude, y.overlaps pattern = false := fun y hy =>
        Bool.eq_false_iff.mpr fun hover => hnone ⟨y, hy, hover⟩
      -- the entry runs unchecked, on an excluded path
      have hruns := hiff.mp ⟨⟨fun y hy => Bool.eq_false_iff.mpr fun hy' =>
          hnone ⟨y, hy, ScopePattern.overlaps_of_covers hy'⟩,
        scope, hscope, ScopePattern.overlaps_of_covers hcovers⟩,
          .inl ⟨⟨scope, hscope, hcovers⟩, hfree⟩⟩
      exact Bool.false_ne_true ((hruns.2 x hx).symm.trans hstrays.1)
  · rintro ⟨hscopes, hexclusions⟩
    constructor
    · rintro ⟨-, ⟨⟨scope, hscope, hcovers⟩, hfree⟩ | hadmits⟩
      · refine ⟨⟨scope, hscope, ScopePattern.coversPath_of_covers h hcovers⟩, fun x hx =>
          Bool.eq_false_iff.mpr fun hx' => ?_⟩
        rcases hpart hx' with hover | hstrays
        · exact Bool.false_ne_true ((hfree x hx).symm.trans hover)
        · obtain ⟨y, hy, hover⟩ := hexclusions ⟨x, hx, hstrays⟩ ⟨scope, hscope, hcovers⟩
          exact Bool.false_ne_true ((hfree y hy).symm.trans hover)
      · exact hadmits
    · rintro ⟨⟨scope, hscope, hcovers⟩, hexclude⟩
      refine ⟨⟨fun x hx => Bool.eq_false_iff.mpr fun hx' => ?_, ?_⟩,
        .inr ⟨⟨scope, hscope, hcovers⟩, hexclude⟩⟩
      · exact Bool.false_ne_true
          ((hexclude x hx).symm.trans (ScopePattern.coversPath_of_covers h hx'))
      · rcases hpart hcovers with hover | hstrays
        · exact ⟨scope, hscope, hover⟩
        · exact hscopes ⟨scope, hscope, hstrays⟩ hexclude

end Covering

namespace Stage

/-- **The stage of a route agrees with the check of each path** exactly if it decides
every entry as its path does: what a request runs is what `ran` says, and that is the
entries whose filter admits the path, in declaration order. -/
theorem scoped_for_agrees (self : Stage μ ρ) {pattern : Pattern} {path : Text}
    (h : (pattern.matchesPath path).isSome = true) :
    (self.scopedFor pattern).2.runnableFor path = (self.ran pattern path).map (·.runnable) ∧
    (self.ran pattern path = self.covering.filter (·.filter.admits path) ↔
      ∀ e ∈ self.covering, e.Decided pattern path) := by
  refine ⟨runnableFor_scopedFor self pattern path, ?_⟩
  rw [ran, coveredBy, filter_filter, filter_eq_filter_iff]
  refine forall_congr' fun e => imp_congr_right fun _ => ?_
  rw [← Covering.runs_eq_admits_iff h, Covering.runs, Bool.and_comm]

/-- The letters and digits of ASCII. -/
def ascii : Alphabet := ⟨Char.isAlpha, Char.isAlphanum⟩

/-- A stage of one entry. -/
def ofEntry (runnable : ρ) (scope exclude : List ScopePattern) : Stage Unit ρ where
  covering := [⟨⟨(), 0, 0⟩, runnable, scope, exclude⟩]
  reached := [scope.map fun _ => false]
  shared := []
  coherent := by
    intro e he e' he' _
    rw [List.mem_singleton.mp he, List.mem_singleton.mp he']
  built := nofun

/-- A stage whose entry is scoped to `/a/*`, and the route `/a/{x}`. -/
theorem scoped_for_agrees_star :
    ∃ scope pattern, ScopePattern.parse ascii ['/', 'a', '/', '*'] = .ok scope ∧
      Pattern.parse ascii ['/', 'a', '/', '{', 'x', '}'] = .ok pattern ∧
      ((ofEntry 7 [scope] []).scopedFor pattern).2.runnableFor ['/', 'a', '/', 'b'] =
        ((ofEntry 7 [scope] []).covering.filter (·.filter.admits ['/', 'a', '/', 'b'])).map
          (·.runnable) := by
  refine ⟨_, _, rfl, rfl, (scoped_for_agrees _ rfl).1.trans (congrArg _ ?_)⟩
  refine (scoped_for_agrees _ rfl).2.mpr fun e he => ?_
  cases mem_singleton.mp he
  exact ⟨fun _ _ => ⟨_, mem_singleton_self _, by decide⟩, fun ⟨_, hx, _⟩ => nomatch hx⟩

/-- **A scoped entry that is skipped**: scoped to `/%25`, on the route `/%2525` and the
path `/%25`, which the route matches as sent and the scope decoded. -/
theorem skipped_entry :
    ∃ scope pattern, ScopePattern.parse ascii ['/', '%', '2', '5'] = .ok scope ∧
      Pattern.parse ascii ['/', '%', '2', '5', '2', '5'] = .ok pattern ∧
      (pattern.matchesPath ['/', '%', '2', '5']).isSome = true ∧
      hasDotSegment ['/', '%', '2', '5'] = false ∧ hasBackslash ['/', '%', '2', '5'] = false ∧
      scope.coversPath ['/', '%', '2', '5'] = true ∧
      ((ofEntry 7 [scope] []).scopedFor pattern).2.runnableFor ['/', '%', '2', '5'] = [] :=
  ⟨_, _, rfl, rfl, by decide, by decide, by decide, by decide, by decide⟩

end Stage

/-! ## Entries that run on every request -/

section EveryRequest

variable {pieces : List (ℕ × Text)} {scope : ScopePattern} {path : Text}

theorem Wellformed.fixed (h : Wellformed segments) :
    ∀ segment ∈ (shapeOf segments).fixed, segment.Fixed := by
  induction segments with
  | nil => nofun
  | cons segment segments ih =>
    cases segment with
    | rest =>
      cases (show segments = [] from h)
      nofun
    | static =>
      rw [shapeOf_cons (by simp), forall_mem_cons]
      exact ⟨h.1, ih h.2⟩
    | param =>
      rw [shapeOf_cons (by simp), forall_mem_cons]
      exact ⟨trivial, ih h⟩

/-- A path that a scope covers has its shape. -/
theorem ScopePattern.takes_of_coversPath {alphabet : Alphabet}
    (hparse : ScopePattern.parse alphabet text = .ok scope) (h : scope.coversPath path = true) :
    scope.shape.Takes (split (normalize path)) := by
  obtain ⟨hlong, htakes⟩ := coversPath_iff.mp h
  refine ⟨hlong, fun i segment hs => ?_⟩
  have hfixed : segment.Fixed := by
    unfold ScopePattern.parse at hparse
    split at hparse <;> cases hparse
    exact (parseSegments_wellformed ‹_›).fixed segment (mem_of_getElem? hs)
  have hi : i < (split (normalize path)).length := by
    have hlt : i < scope.segments.length := (List.getElem?_eq_some_iff.mp hs).1
    unfold Shape.Long at hlong
    split at hlong
    · exact Nat.lt_trans hlt hlong
    · rw [hlong]
      exact hlt
  have hpiece := getElem?_eq_getElem hi
  exact ⟨hfixed, _, _, hpiece, (htakes i segment _ _ hs hpiece).2⟩

/-- **What two shapes take** their intersection takes. -/
theorem Shape.Takes.intersection {a b shared : Shape} (ha : a.Takes pieces) (hb : b.Takes pieces)
    (h : a.intersection b = some shared) : shared.Takes pieces ∧
      shared.isOpen = (a.isOpen && b.isOpen) ∧
        shared.fixed.length = max a.fixed.length b.fixed.length := by
  obtain ⟨-, h⟩ := Option.ite_none_right_eq_some.mp h
  -- the longer of the two, and the shorter
  have hshared (long short : Shape) (hl : long.Takes pieces) (hs : short.Takes pieces)
      (hle : short.fixed.length ≤ long.fixed.length) :
      Shape.Takes ⟨long.fixed.mapIdx (narrowed short.fixed), long.isOpen &&
        short.isOpen⟩ pieces := by
    refine ⟨?_, fun i segment hi => ?_⟩
    · have hlong := hl.long
      have hshort := hs.long
      unfold Shape.Long at hlong hshort ⊢
      cases ho : long.isOpen <;> cases ho' : short.isOpen <;> simp_all
      omega
    · rw [getElem?_mapIdx] at hi
      obtain ⟨own, hown, rfl⟩ := Option.map_eq_some_iff.mp hi
      unfold narrowed
      split
      · exact hs.takes i _ ‹_›
      · exact hl.takes i own hown
  by_cases hle : b.fixed.length ≤ a.fixed.length
  · rw [if_pos hle] at h
    cases h
    exact ⟨hshared a b ha hb hle, rfl, by simp [hle]⟩
  · rw [if_neg hle] at h
    cases h
    have hle := Nat.le_of_not_le hle
    have htakes := hshared b a hb ha hle
    rw [Bool.and_comm] at htakes
    exact ⟨htakes, rfl, by simp [hle]⟩

/-- **A route that contains what an exclusion shares with another** matches their common paths that
have a piece for the exclusion's `*`. -/
theorem matches_of_contains {route pattern : Pattern} {shared : Shape}
    (hroute : route.contains shared = true) (hshared : scope.sharedWith pattern = some shared)
    (hscope : scope.shape.Takes (split (normalize path)))
    (hfull : scope.shape.Full (split (normalize path)))
    (hmatch : (pattern.matchesPath path).isSome = true) :
    (route.matchesPath path).isSome = true := by
  obtain ⟨hpattern, hrest⟩ : pattern.shape.Takes _ ∧ pattern.shape.Full _ :=
    (matchFrom_iff pattern.wellformed).mp hmatch
  obtain ⟨htakes, hopen, hlength⟩ := hscope.intersection hpattern hshared
  refine (matchFrom_iff route.wellformed).mpr
    ⟨htakes.of_contains hroute, fun ho offset piece hpiece => ?_⟩
  obtain ⟨hfits, -⟩ := Bool.and_eq_true_iff.mp hroute
  rw [show route.shape.isOpen = true from ho] at hfits
  by_cases hlt : route.shape.fixed.length < shared.fixed.length
  · -- the route's rest begins at a segment that both ask for
    obtain ⟨hfixed, _, _, hpiece', htake⟩ := htakes.takes _ _ (getElem?_eq_getElem hlt)
    cases hpiece.symm.trans hpiece'
    exact hfixed.ne_nil htake
  · -- it begins where the longer of the two is at its end
    cases hso : shared.isOpen with
    | false =>
      rw [hso] at hfits
      exact absurd (of_decide_eq_true hfits) hlt
    | true =>
      rw [hso] at hfits hopen
      have heq := Nat.le_antisymm (of_decide_eq_true hfits) (Nat.le_of_not_lt hlt)
      have hpiece : (split (normalize path))[route.shape.fixed.length]? = some (offset, piece) :=
        hpiece
      rw [heq, hlength] at hpiece
      obtain ⟨hs, hp⟩ := Bool.and_eq_true_iff.mp hopen.symm
      rcases Nat.le_total scope.shape.fixed.length pattern.shape.fixed.length with hle | hle
      · exact hrest hp offset piece (by rwa [Nat.max_eq_right hle] at hpiece)
      · exact hfull hs offset piece (by rwa [Nat.max_eq_left hle] at hpiece)

end EveryRequest

namespace Stage

/-- **An entry that runs on every request** of a route admits a path that reaches it, one that the
route matches and no pattern before it does, exactly if no exclusion strays from the route on the
path or takes an empty piece of it with its `*`. -/
theorem runs_on_every_request_sound (self : Stage μ ρ) {declaration index : ℕ} {pattern : Pattern}
    {before : List Pattern} {path : Text}
    (h : self.runsOnEveryRequest declaration index pattern before = true)
    (hparsed : ∀ e ∈ self.covering, ∀ x ∈ e.exclude,
      ∃ alphabet text, ScopePattern.parse alphabet text = .ok x)
    (hmatch : (pattern.matchesPath path).isSome = true)
    (hbefore : ∀ route ∈ before, (route.matchesPath path).isSome = false) :
    ∃ e, self.entry declaration index = some e ∧
      (e.filter.admits path = true ↔ ∀ x ∈ e.exclude, ¬ x.Strays pattern path ∧
        (x.coversPath path = true → x.shape.Full (split (normalize path)))) := by
  unfold runsOnEveryRequest at h
  split at h
  · cases h
  rename_i e hentry
  refine ⟨e, hentry, Covering.admits_iff.trans ⟨fun hadmits x hx => ?_, fun hexclude => ?_⟩⟩
  · have hnot := hadmits.2 x hx
    exact ⟨fun hstrays => Bool.false_ne_true (hnot.symm.trans hstrays.1),
      fun hpath => absurd (hnot.symm.trans hpath) Bool.false_ne_true⟩
  obtain ⟨hscope, hshared⟩ := Bool.and_eq_true_iff.mp h
  obtain ⟨scope, hmem, hcovers⟩ := any_eq_true.mp hscope
  refine ⟨⟨scope, hmem, ScopePattern.coversPath_of_covers hmatch hcovers⟩, fun x hx => ?_⟩
  refine Bool.eq_false_iff.mpr fun hpath => ?_
  obtain ⟨hstrays, hfull⟩ := hexclude x hx
  obtain ⟨alphabet, text, hparse⟩ := hparsed e (mem_of_find?_eq_some hentry) x hx
  have hclaimed := all_eq_true.mp hshared x hx
  split at hclaimed
  · -- the exclusion shares no path with the route, and strays
    rename_i hnone
    refine hstrays ((ScopePattern.strays_iff hmatch).mpr
      ⟨hpath, Bool.eq_false_iff.mpr fun hover => ?_⟩)
    rw [ScopePattern.sharedWith, Shape.intersection,
      if_pos (show x.shape.overlaps pattern.shape = true from hover)] at hnone
    cases hnone
  · rename_i hsome
    obtain ⟨route, hroute, hcontains⟩ := any_eq_true.mp hclaimed
    have hmatches := matches_of_contains hcontains hsome
      (ScopePattern.takes_of_coversPath hparse hpath) (hfull hpath) hmatch
    rw [hbefore route hroute] at hmatches
    cases hmatches

/-- The scope `/*`, the exclusion `/a/b` and the routes `/a/b` and `/a/{x}`, as they parse. -/
def everything : ScopePattern := ⟨['/', '*'], [], true⟩
def below : ScopePattern := ⟨['/', 'a', '/', 'b'], [.static ['a'], .static ['b']], false⟩
def below.route : Pattern := ⟨below.raw, below.segments, ⟨nofun, nofun, trivial⟩⟩
def below.other : Pattern :=
  ⟨['/', 'a', '/', '{', 'x', '}'], [.static ['a'], .param ['x']], ⟨nofun, trivial⟩⟩

/-- An entry scoped to `/*` that excludes `/a/b`, on the route `/a/{x}` behind `/a/b`. -/
theorem runs_on_every_request_behind :
    (ofEntry 7 [everything] [below]).runsOnEveryRequest 0 0 below.other [below.route] = true ∧
      ∃ e, (ofEntry 7 [everything] [below]).entry 0 0 = some e ∧
        e.filter.admits ['/', 'a', '/', 'c'] = true := by
  have hparsed : ∀ e ∈ (ofEntry 7 [everything] [below]).covering, ∀ x ∈ e.exclude,
      ∃ alphabet text, ScopePattern.parse alphabet text = .ok x := by
    intro e he x hx
    cases mem_singleton.mp he
    cases mem_singleton.mp hx
    exact ⟨ascii, ['/', 'a', '/', 'b'], rfl⟩
  obtain ⟨e, hentry, hadmits⟩ := @runs_on_every_request_sound Unit ℕ
    (ofEntry 7 [everything] [below]) 0 0
    below.other [below.route] ['/', 'a', '/', 'c'] (by decide) hparsed (by decide) (by simp; decide)
  refine ⟨by decide, e, hentry, hadmits.mpr fun x hx => ?_⟩
  cases hentry
  cases mem_singleton.mp hx
  exact ⟨fun hstrays => absurd hstrays.1 (by decide), fun _ => nofun⟩

/-- **An entry that is excluded anyway**: scoped to `/*`, with the exclusion `/%25` that strays from
the route `/%2525`; or with `/a/{x}/*`, on the route `/a/{*r}` behind `/a/{x}/{*r}`, whose rest does
not take the empty piece of `/a/b//c`. -/
theorem excluded_anyway :
    (∃ exclude pattern, ScopePattern.parse ascii ['/', '%', '2', '5'] = .ok exclude ∧
      Pattern.parse ascii ['/', '%', '2', '5', '2', '5'] = .ok pattern ∧
      (ofEntry 7 [everything] [exclude]).runsOnEveryRequest 0 0 pattern [] = true ∧
      (pattern.matchesPath ['/', '%', '2', '5']).isSome = true ∧
      ((ofEntry 7 [everything] [exclude]).entry 0 0).any
        (·.filter.admits ['/', '%', '2', '5']) = false) ∧
    ∃ exclude pattern route,
      ScopePattern.parse ascii ['/', 'a', '/', '{', 'x', '}', '/', '*'] = .ok exclude ∧
      Pattern.parse ascii ['/', 'a', '/', '{', '*', 'r', '}'] = .ok pattern ∧
      Pattern.parse ascii ['/', 'a', '/', '{', 'x', '}', '/', '{', '*', 'r', '}'] = .ok route ∧
      (ofEntry 7 [everything] [exclude]).runsOnEveryRequest 0 0 pattern [route] = true ∧
      (pattern.matchesPath ['/', 'a', '/', 'b', '/', '/', 'c']).isSome = true ∧
      (route.matchesPath ['/', 'a', '/', 'b', '/', '/', 'c']).isSome = false ∧
      ((ofEntry 7 [everything] [exclude]).entry 0 0).any
        (·.filter.admits ['/', 'a', '/', 'b', '/', '/', 'c']) = false :=
  ⟨⟨_, _, rfl, rfl, by decide, by decide, by decide⟩,
    ⟨_, _, _, rfl, rfl, rfl, by decide, by decide, by decide, by decide⟩⟩

end Stage

end Ulo.Http
