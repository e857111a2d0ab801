import Ulo.Lib.List
import Ulo.Lib.Percent

/-!
# Route patterns and scopes

A route pattern is a path whose segments are texts, parameters `{name}` and, in the
end, a rest `{*name}` for one segment or more; a scope of the stage before dispatch is
the same with `*` for its rest. A request's path is matched segment by segment as it
was sent, each segment percent-decoded but for its encoded slashes.

A static segment of a pattern is kept decoded, and it matches a segment of a path that
is it *as sent*, or is it *once decoded* (`staticMatches`). The two readings of one
segment can differ: `%25` is sent as itself and decodes to `%`, so that it matches the
static segment that `%2525` writes and the one that `%25` writes. What compares two
patterns with each other – `Pattern.conflicts`, `Shape.contains`, `Shape.overlaps` –
compares their decoded texts, for which those are two different segments. The theorems
about the router and about the stage come out of this: everything else agrees, and
`eq_or_sent_of_matches` says that nothing else can go wrong.
-/

namespace Ulo.Http

open List

/-- The text of a path or of a pattern. -/
abbrev Text := List Char

/-! ## Texts of paths -/

/-- `path` without its trailing slash, except for `/`. -/
def normalize (path : Text) : Text :=
  if path.getLast? = some '/' ∧ path.dropLast ≠ [] then path.dropLast else path

/-- Pieces with the offset of each in the path. -/
def offsets (offset : ℕ) : List Text → List (ℕ × Text)
  | [] => []
  | piece :: pieces => (offset, piece) :: offsets (offset + piece.length + 1) pieces

/-- The segments of a normalized path, each with its offset in it: none for `/`. -/
def split : Text → List (ℕ × Text)
  | '/' :: rest => if rest = [] then [] else offsets 1 (rest.splitOn '/')
  | path => [(0, path)]

/-- `decode`, past the characters `done` that hold no encoded slash. -/
def decodeFrom (done : Text) : Text → Text
  | '%' :: '2' :: c :: rest =>
    if c = 'F' ∨ c = 'f' then Percent.decodeText done ++ '%' :: '2' :: c :: decodeFrom [] rest
    else decodeFrom (done ++ ['%']) ('2' :: c :: rest)
  | c :: rest => decodeFrom (done ++ [c]) rest
  | [] => Percent.decodeText done

/-- `piece` percent-decoded, with each encoded slash left as written. -/
def decode (piece : Text) : Text := decodeFrom [] piece

/-- A segment of a request against a static segment of a pattern, which is held
decoded: equal as sent, or equal once decoded. -/
def staticMatches (text piece : Text) : Bool :=
  text == piece || piece.contains '%' && decode piece == text

/-- `is_dot_segment`, with the number of dots so far. -/
def isDotSegmentFrom (dots : ℕ) : Text → Bool
  | '.' :: rest => dots < 2 && isDotSegmentFrom (dots + 1) rest
  | '%' :: '2' :: e :: rest => (e == 'e' || e == 'E') && dots < 2 &&
    isDotSegmentFrom (dots + 1) rest
  | [] => 0 < dots
  | _ => false

/-- Whether `path` holds a `.` or `..` segment, each dot written raw, `%2E` or `%2e`. -/
def hasDotSegment (path : Text) : Bool := (path.splitOn '/').any (isDotSegmentFrom 0)

/-- Whether `path` holds a backslash, raw or written `%5C` or `%5c`. -/
def hasBackslash : Text → Bool
  | '\\' :: _ => true
  | '%' :: '5' :: c :: rest => c == 'C' || c == 'c' || hasBackslash ('5' :: c :: rest)
  | _ :: rest => hasBackslash rest
  | [] => false

/-! ## Patterns -/

inductive Segment
  | static (text : Text)
  | param (name : Text)
  /-- `{*rest}`, last only: the remaining path, one or more segments. -/
  | rest (name : Text)
deriving DecidableEq

/-- Why a pattern does not parse. -/
inductive PatternFault
  | start
  | emptySegment
  | starNotLast
  | unclosed
  | restNotLast
  | strayBrace
  | nameTwice
  | emptyName
  | nameStart
  | nameChars
deriving DecidableEq

/-- The reason as it is told. -/
def PatternFault.reason : PatternFault → String
  | .start => "a pattern starts with `/`"
  | .emptySegment => "a segment between two `/` is empty"
  | .starNotLast => "`*` is the last segment only"
  | .unclosed => "a `\x7b` opens a segment that does not end with `\x7d`"
  | .restNotLast => "`\x7b*name\x7d` is the last segment only"
  | .strayBrace => "a brace appears outside a whole `\x7bname\x7d` segment"
  | .nameTwice => "a parameter name appears twice"
  | .emptyName => "a parameter name is empty"
  | .nameStart => "a parameter name starts with `_` or a letter"
  | .nameChars => "a parameter name holds only `_`, letters and digits"

structure PatternError where
  pattern : Text
  fault : PatternFault

/-- The letters, and the letters and digits. -/
structure Alphabet where
  isAlphabetic : Char → Bool
  isAlphanumeric : Char → Bool

/-- **A list of segments that parses**: no static segment is empty, and a rest is last. -/
def Wellformed : List Segment → Prop
  | [] => True
  | .static text :: segments => text ≠ [] ∧ Wellformed segments
  | .param _ :: segments => Wellformed segments
  | .rest _ :: segments => segments = []

section Parse

variable (alphabet : Alphabet)

def checkName : Text → Except PatternFault Unit
  | [] => .error .emptyName
  | first :: chars =>
    if first ≠ '_' ∧ alphabet.isAlphabetic first = false then .error .nameStart
    else if chars.any fun c => c != '_' && !alphabet.isAlphanumeric c then .error .nameChars
    else .ok ()

/-- Records `name`, refusing one already recorded. -/
def named (names : List Text) (name : Text) : Except PatternFault (List Text) :=
  if name ∈ names then .error .nameTwice else .ok (names ++ [name])

/-- One piece of a pattern, `last` or not. -/
def parsePiece (scope last : Bool) (names : List Text) (piece : Text) :
    Except PatternFault (Segment × List Text) :=
  if piece = [] then .error .emptySegment
  else if scope ∧ piece = ['*'] then
    if last then .ok (.rest ['*'], names) else .error .starNotLast
  else
    match piece with
    | '{' :: inner =>
      if inner.getLast? ≠ some '}' then .error .unclosed
      else
        match inner.dropLast with
        | '*' :: name =>
          (checkName alphabet name).bind fun _ =>
            if last then (named names name).map (.rest name, ·) else .error .restNotLast
        | name =>
          (checkName alphabet name).bind fun _ => (named names name).map (.param name, ·)
    | piece =>
      if piece.any fun c => c == '{' || c == '}' then .error .strayBrace
      -- decoded as a request's segment is
      else .ok (.static (decode piece), names)

def parsePieces (scope : Bool) (names : List Text) : List Text → Except PatternFault (List Segment)
  | [] => .ok []
  | piece :: pieces =>
    (parsePiece alphabet scope pieces.isEmpty names piece).bind fun (segment, names) =>
      (parsePieces scope names pieces).map (segment :: ·)

/-- **The grammar**: a leading `/`; segments of static text, `{name}`, or a final
`{*name}`; no brace elsewhere; no empty segment; no name twice. With `scope`, a final
`*` is the wildcard. -/
def parseSegments (text : Text) (scope : Bool) : Except PatternFault (List Segment) :=
  if text.head? ≠ some '/' then .error .start
  else if normalize text = ['/'] then .ok []
  else parsePieces alphabet scope [] ((normalize text).tail.splitOn '/')

end Parse

/-! ### What parses is well formed -/

variable {piece text path : Text} {segments : List Segment} {segment : Segment}

theorem decodeFrom_ne_nil {done : Text} (h : done ≠ [] ∨ piece ≠ []) :
    decodeFrom done piece ≠ [] := by
  induction done, piece using decodeFrom.induct with
  | case1 done c rest hc =>
    rw [decodeFrom, if_pos hc]
    exact append_ne_nil_of_right_ne_nil _ (cons_ne_nil _ _)
  | case2 done c rest hc ih =>
    rw [decodeFrom, if_neg hc]
    exact ih (.inr (cons_ne_nil _ _))
  | case3 done c rest hne ih =>
    rw [decodeFrom]
    · exact ih (.inl (append_ne_nil_of_right_ne_nil _ (cons_ne_nil _ _)))
    · exact hne
  | case4 =>
    rw [decodeFrom]
    exact Percent.decodeText_ne_nil (h.resolve_right fun hnil => hnil rfl)

/-- Something decodes to something. -/
theorem decode_ne_nil (h : piece ≠ []) : decode piece ≠ [] :=
  decodeFrom_ne_nil (.inr h)

section Parse

variable {alphabet : Alphabet} {scope : Bool}

theorem bind_ok {ε α β : Type} {x : Except ε α} {f : α → Except ε β} {b : β}
    (h : x.bind f = .ok b) : ∃ a, x = .ok a ∧ f a = .ok b := by
  cases x with
  | error => cases h
  | ok a => exact ⟨a, rfl, h⟩

theorem map_ok {ε α β : Type} {x : Except ε α} {f : α → β} {b : β} (h : x.map f = .ok b) :
    ∃ a, x = .ok a ∧ f a = b := by
  cases x with
  | error => cases h
  | ok a =>
    cases h
    exact ⟨a, rfl, rfl⟩

/-- A piece is a static text, which is not empty, a parameter, or a rest in the end. -/
theorem parsePiece_spec {last : Bool} {names names' : List Text} {piece : Text}
    (h : parsePiece alphabet scope last names piece = .ok (segment, names')) :
    (∃ text, segment = .static text ∧ text ≠ []) ∨ (∃ name, segment = .param name) ∨
      (∃ name, segment = .rest name) ∧ last = true := by
  unfold parsePiece at h
  split at h
  · cases h
  · rename_i hpiece
    split at h
    · split at h <;> cases h
      exact .inr (.inr ⟨⟨_, rfl⟩, ‹_›⟩)
    · split at h
      · split at h
        · cases h
        · split at h
          · obtain ⟨_, -, h⟩ := bind_ok h
            split at h
            · obtain ⟨_, -, heq⟩ := map_ok h
              cases heq
              exact .inr (.inr ⟨⟨_, rfl⟩, ‹_›⟩)
            · cases h
          · obtain ⟨_, -, h⟩ := bind_ok h
            obtain ⟨_, -, heq⟩ := map_ok h
            cases heq
            exact .inr (.inl ⟨_, rfl⟩)
      · split at h <;> cases h
        exact .inl ⟨_, rfl, decode_ne_nil hpiece⟩

theorem parsePieces_wellformed {names : List Text} {pieces : List Text}
    (h : parsePieces alphabet scope names pieces = .ok segments) : Wellformed segments := by
  induction pieces generalizing names segments with
  | nil =>
    cases h
    trivial
  | cons piece pieces ih =>
    obtain ⟨⟨segment, names'⟩, hpiece, h⟩ := bind_ok h
    obtain ⟨rest, hrest, rfl⟩ := map_ok h
    rcases parsePiece_spec hpiece with ⟨text, rfl, htext⟩ | ⟨name, rfl⟩ | ⟨⟨name, rfl⟩, hlast⟩
    · exact ⟨htext, ih hrest⟩
    · show Wellformed rest
      exact ih hrest
    · rw [isEmpty_iff.mp hlast] at hrest
      cases hrest
      rfl

theorem parseSegments_wellformed (h : parseSegments alphabet text scope = .ok segments) :
    Wellformed segments := by
  unfold parseSegments at h
  split at h
  · cases h
  · split at h
    · cases h
      trivial
    · exact parsePieces_wellformed h

end Parse

/-- **A parsed route pattern.** -/
structure Pattern where
  /-- Normalized: no trailing slash except for `/`. -/
  raw : Text
  segments : List Segment
  wellformed : Wellformed segments

/-- The parameters of a matched path, in the order the pattern names them. -/
structure PathParams where
  pairs : List (Text × Text)
deriving DecidableEq

/-- A match from some segment on. A parameter or a rest never captures an empty
segment. -/
def matchFrom (path : Text) (pairs : List (Text × Text)) :
    List Segment → List (ℕ × Text) → Option PathParams
  | .rest name :: _, (offset, piece) :: _ =>
    if piece = [] then none else some ⟨pairs ++ [(name, decode (path.drop offset))]⟩
  | .static text :: segments, (_, piece) :: pieces =>
    if staticMatches text piece then matchFrom path pairs segments pieces else none
  | .param name :: segments, (_, piece) :: pieces =>
    if piece = [] then none
    else matchFrom path (pairs ++ [(name, decode piece)]) segments pieces
  | _ :: _, [] => none
  | [], pieces => if pieces = [] then some ⟨pairs⟩ else none

/-- **The request paths a pattern or a scope matches**: exactly `fixed`, or, if open,
`fixed` followed by one or more segments. -/
structure Shape where
  fixed : List Segment
  isOpen : Bool

/-- The shape of a pattern's segments. -/
def shapeOf (segments : List Segment) : Shape :=
  match segments.getLast? with
  | some (.rest _) => ⟨segments.dropLast, true⟩
  | _ => ⟨segments, false⟩

namespace Shape

/-- Whether every path `other` matches, this matches too. -/
def contains (self other : Shape) : Bool :=
  (match self.isOpen, other.isOpen with
    | true, true => self.fixed.length ≤ other.fixed.length
    | true, false => self.fixed.length < other.fixed.length
    | false, false => other.fixed.length = self.fixed.length
    | false, true => false) &&
  (self.fixed.zip other.fixed).all fun
    | (.static a, .static b) => a == b
    | (.param _, _) => true
    | _ => false

/-- Whether some path matches both. Past the shorter `fixed`, the open one takes any
segment. -/
def overlaps (self other : Shape) : Bool :=
  (match self.isOpen, other.isOpen with
    | true, true => true
    | true, false => self.fixed.length < other.fixed.length
    | false, true => other.fixed.length < self.fixed.length
    | false, false => other.fixed.length = self.fixed.length) &&
  (self.fixed.zip other.fixed).all fun
    | (.static a, .static b) => a == b
    | _ => true

/-- A segment as the other shape leaves it, which may ask for a text there. -/
def narrowed (short : List Segment) (index : ℕ) (segment : Segment) : Segment :=
  match short[index]? with
  | some (.static text) => .static text
  | _ => segment

/-- The paths both match: segment by segment the narrower of the two, and past the shorter
`fixed` the longer one's. -/
def intersection (self other : Shape) : Option Shape :=
  if self.overlaps other then
    let (long, short) := if other.fixed.length ≤ self.fixed.length then (self.fixed, other.fixed)
      else (other.fixed, self.fixed)
    some ⟨long.mapIdx (narrowed short), self.isOpen && other.isOpen⟩
  else none

end Shape

/-- The piece of `raw` written for the first static segment that holds a backslash
once decoded. -/
def unreachableSegment (raw : Text) (segments : List Segment) : Option Text :=
  (segments.findIdx? fun
    | .static text => text.contains '\\'
    | _ => false).bind fun index =>
      match raw with
      | '/' :: rest => (rest.splitOn '/')[index]?
      | _ => none

namespace Pattern

def parse (alphabet : Alphabet) (text : Text) : Except PatternError Pattern :=
  match h : parseSegments alphabet text false with
  | .error fault => .error ⟨text, fault⟩
  | .ok segments => .ok ⟨normalize text, segments, parseSegments_wellformed h⟩

/-- `start` and `route` joined with exactly one `/` between them, as `.at(prefix)`
applies a controller's prefix. -/
def join (start route : Text) : Text :=
  let start := (start.reverse.dropWhile (· == '/')).reverse
  let route := route.dropWhile (· == '/')
  let joined := if start.head? = some '/' then start else '/' :: start
  if route = [] then joined
  else if joined.getLast? = some '/' then joined ++ route
  else joined ++ '/' :: route

/-- The same method on two patterns that are equal after normalization, or that differ
only in a parameter's name at one position, is a duplicate route. -/
def conflicts (self other : Pattern) : Bool :=
  self.segments.length == other.segments.length &&
  (self.segments.zip other.segments).all fun
    | (.static a, .static b) => a == b
    | (.param _, .param _) | (.rest _, .rest _) => true
    | _ => false

/-- The match of a path already normalized and split. -/
def matchSplit (self : Pattern) (path : Text) (pieces : List (ℕ × Text)) : Option PathParams :=
  matchFrom path [] self.segments pieces

/-- The parameters of `path`, percent-decoded, when it matches. -/
def matchesPath (self : Pattern) (path : Text) : Option PathParams :=
  self.matchSplit (normalize path) (split (normalize path))

def shape (self : Pattern) : Shape := shapeOf self.segments

def unreachableSegment (self : Pattern) : Option Text :=
  Http.unreachableSegment self.raw self.segments

/-- Whether this route matches every request path in `shared`. -/
def contains (self : Pattern) (shared : Shape) : Bool := self.shape.contains shared

def paramNames (self : Pattern) : List Text :=
  self.segments.filterMap fun
    | .param name | .rest name => some name
    | .static _ => none

/-- The precedence key among patterns that match one path: compared left to right, a
static segment ranks before a parameter and a parameter before a rest. -/
def precedence (self : Pattern) : List ℕ :=
  self.segments.map fun
    | .static _ => 0
    | .param _ => 1
    | .rest _ => 2

end Pattern

/-- **A scope**, matched against the request path. -/
structure ScopePattern where
  raw : Text
  /-- The segments before a final `*` or `{*rest}`, which `wildcard` records. -/
  segments : List Segment
  wildcard : Bool

namespace ScopePattern

def parse (alphabet : Alphabet) (text : Text) : Except PatternError ScopePattern :=
  match parseSegments alphabet text true with
  | .error fault => .error ⟨text, fault⟩
  | .ok segments => .ok ⟨normalize text, (shapeOf segments).fixed, (shapeOf segments).isOpen⟩

def shape (self : ScopePattern) : Shape := ⟨self.segments, self.wildcard⟩

/-- Whether this scope matches every request path the route `pattern` matches. -/
def covers (self : ScopePattern) (pattern : Pattern) : Bool := self.shape.contains pattern.shape

/-- Whether some request path matches both this scope and the route `pattern`. -/
def overlaps (self : ScopePattern) (pattern : Pattern) : Bool := self.shape.overlaps pattern.shape

/-- Whether every request path `other` matches, this scope matches too. -/
def contains (self other : ScopePattern) : Bool := self.shape.contains other.shape

/-- The request paths this scope and the route `pattern` both match. -/
def sharedWith (self : ScopePattern) (pattern : Pattern) : Option Shape :=
  self.shape.intersection pattern.shape

/-- Whether this scope matches the request path `path`, compared as the router
compares it. -/
def coversPath (self : ScopePattern) (path : Text) : Bool :=
  let pieces := split (normalize path)
  (if self.wildcard then self.segments.length < pieces.length
    else pieces.length = self.segments.length) &&
  (self.segments.zip pieces).all fun
    | (.static text, (_, piece)) => staticMatches text piece
    | (.param _, (_, piece)) => !piece.isEmpty
    | (.rest _, _) => false

end ScopePattern

/-! ## What a segment takes -/

/-- Whether a segment takes a piece of a path. -/
def Segment.takes : Segment → Text → Bool
  | .static text, piece => staticMatches text piece
  | .param _, piece | .rest _, piece => !piece.isEmpty

/-- **A piece with two readings**: it is the one text as sent and the other decoded. -/
def SentAs (piece text text' : Text) : Prop :=
  text ≠ text' ∧ (text = piece ∧ text' = decode piece ∨ text' = piece ∧ text = decode piece)

/-- **Two static segments that match one piece** are one, unless the piece is the one
as sent and the other decoded. -/
theorem eq_or_sentAs {text' : Text} (h : staticMatches text piece = true)
    (h' : staticMatches text' piece = true) : text = text' ∨ SentAs piece text text' := by
  simp only [staticMatches, Bool.or_eq_true, Bool.and_eq_true, beq_iff_eq] at h h'
  by_cases heq : text = text'
  · exact .inl heq
  · refine .inr ⟨heq, ?_⟩
    rcases h with h | ⟨-, h⟩
    · rcases h' with h' | ⟨-, h'⟩
      · exact absurd (h.trans h'.symm) heq
      · exact .inl ⟨h, h'.symm⟩
    · rcases h' with h' | ⟨-, h'⟩
      · exact .inr ⟨h', h.symm⟩
      · exact absurd (h.symm.trans h') heq

/-- A static segment, which is not empty, takes no empty piece. -/
theorem ne_nil_of_staticMatches (htext : text ≠ []) (h : staticMatches text piece = true) :
    piece ≠ [] := by
  rintro rfl
  simp only [staticMatches, Bool.or_eq_true, Bool.and_eq_true, beq_iff_eq] at h
  rcases h with h | ⟨h, -⟩
  · exact htext h
  · cases h

/-- A segment before any rest: a static text that is not empty, or a parameter. -/
def Segment.Fixed : Segment → Prop
  | .static text => text ≠ []
  | .param _ => True
  | .rest _ => False

theorem Segment.Fixed.ne_nil (h : segment.Fixed) (htakes : segment.takes piece = true) :
    piece ≠ [] := by
  cases segment with
  | static => exact ne_nil_of_staticMatches h htakes
  | param =>
    rintro rfl
    cases htakes
  | rest => exact h.elim

/-! ### The paths of a pattern have its shape -/

theorem shapeOf_cons (h : ∀ name, segment ≠ .rest name) (segments : List Segment) :
    shapeOf (segment :: segments) =
      ⟨segment :: (shapeOf segments).fixed, (shapeOf segments).isOpen⟩ := by
  cases segments with
  | nil =>
    cases segment with
    | rest name => exact absurd rfl (h name)
    | _ => rfl
  | cons =>
    simp only [shapeOf, getLast?_cons_cons, dropLast_cons_cons]
    split <;> rfl

/-- Whether a number of pieces is one of a shape's. -/
def Shape.Long (shape : Shape) (n : ℕ) : Prop :=
  if shape.isOpen then shape.fixed.length < n else n = shape.fixed.length

/-- **What a match says**: the path is as long as the shape asks, and each segment of
the shape takes its piece. -/
structure Shape.Takes (shape : Shape) (pieces : List (ℕ × Text)) : Prop where
  long : shape.Long pieces.length
  takes : ∀ (i : ℕ) (segment : Segment), shape.fixed[i]? = some segment →
    segment.Fixed ∧ ∃ offset piece, pieces[i]? = some (offset, piece) ∧ segment.takes piece = true

/-- Where an open shape's rest begins, the path has a piece that is not empty. -/
def Shape.Full (shape : Shape) (pieces : List (ℕ × Text)) : Prop :=
  shape.isOpen = true → ∀ offset piece, pieces[shape.fixed.length]? = some (offset, piece) →
    piece ≠ []

section Cons

variable {segment : Segment} {segments : List Segment} {offset : ℕ} {piece : Text}
  {pieces : List (ℕ × Text)} (hrest : ∀ name, segment ≠ .rest name)

include hrest

theorem Shape.takes_cons : (shapeOf (segment :: segments)).Takes ((offset, piece) :: pieces) ↔
    segment.Fixed ∧ segment.takes piece = true ∧ (shapeOf segments).Takes pieces := by
  rw [shapeOf_cons hrest]
  have hlong : Shape.Long ⟨segment :: (shapeOf segments).fixed, (shapeOf segments).isOpen⟩
      ((offset, piece) :: pieces).length ↔ (shapeOf segments).Long pieces.length := by
    simp only [Shape.Long, length_cons, Nat.add_lt_add_iff_right, Nat.add_right_cancel_iff]
  constructor
  · rintro ⟨h, htakes⟩
    obtain ⟨hfixed, offset', piece', hpiece, htake⟩ := htakes 0 segment rfl
    cases hpiece
    exact ⟨hfixed, htake, hlong.mp h, fun i next hi => htakes (i + 1) next hi⟩
  · rintro ⟨hfixed, htake, h, htakes⟩
    refine ⟨hlong.mpr h, fun i next hi => ?_⟩
    cases i with
    | zero =>
      cases hi
      exact ⟨hfixed, offset, piece, rfl, htake⟩
    | succ i => exact htakes i next hi

theorem Shape.full_cons : (shapeOf (segment :: segments)).Full ((offset, piece) :: pieces) ↔
    (shapeOf segments).Full pieces := by
  rw [shapeOf_cons hrest]
  rfl

end Cons

/-- **A path that matches** has the shape of the pattern, and something for its rest. -/
theorem matchFrom_iff {pairs : List (Text × Text)} {pieces : List (ℕ × Text)}
    (hwf : Wellformed segments) : (matchFrom path pairs segments pieces).isSome = true ↔
      (shapeOf segments).Takes pieces ∧ (shapeOf segments).Full pieces := by
  induction segments generalizing pairs pieces with
  | nil =>
    cases pieces with
    | nil => exact ⟨fun _ => ⟨⟨rfl, nofun⟩, nofun⟩, fun _ => rfl⟩
    | cons => exact ⟨nofun, fun h => by cases h.1.long⟩
  | cons segment segments ih =>
    cases pieces with
    | nil =>
      refine ⟨fun h => (by cases segment <;> cases h), fun ⟨h, _⟩ => ?_⟩
      cases segment with
      | rest =>
        cases (show segments = [] from hwf)
        exact absurd h.long (Nat.lt_irrefl 0)
      | static | param =>
        rw [shapeOf_cons (by simp)] at h
        obtain ⟨-, _, _, hpiece, -⟩ := h.takes 0 _ rfl
        cases hpiece
    | cons piece pieces =>
      obtain ⟨offset, piece⟩ := piece
      cases segment with
      | static text =>
        have hrest : ∀ name, Segment.static text ≠ .rest name := fun _ => nofun
        have hfixed : (Segment.static text).Fixed := hwf.1
        have hmatch := @ih pairs pieces hwf.2
        rw [Shape.takes_cons hrest, Shape.full_cons hrest, matchFrom]
        split <;> simp_all [Segment.takes]
      | param name =>
        have hrest : ∀ name', Segment.param name ≠ .rest name' := fun _ => nofun
        have hfixed : (Segment.param name).Fixed := trivial
        have hmatch := @ih (pairs ++ [(name, decode piece)]) pieces hwf
        rw [Shape.takes_cons hrest, Shape.full_cons hrest, matchFrom]
        split <;> simp_all [Segment.takes]
      | rest =>
        cases (show segments = [] from hwf)
        simp only [matchFrom]
        refine ⟨fun h => ⟨⟨Nat.succ_pos _, nofun⟩, fun _ _ _ hpiece => ?_⟩, fun h => ?_⟩
        · cases hpiece
          intro hnil
          rw [if_pos hnil] at h
          cases h
        · rw [if_neg (h.2 rfl offset piece rfl)]
          rfl

/-- **The scope's own match**, in the same terms. -/
theorem ScopePattern.coversPath_iff {scope : ScopePattern} : scope.coversPath path = true ↔
      scope.shape.Long (split (normalize path)).length ∧
      ∀ (i : ℕ) (segment : Segment) (offset : ℕ) (piece : Text), scope.segments[i]? = some segment →
        (split (normalize path))[i]? = some (offset, piece) →
        (∀ name, segment ≠ .rest name) ∧ segment.takes piece = true := by
  unfold coversPath
  rw [Bool.and_eq_true, all_zip_iff]
  refine and_congr ?_ ⟨fun h i segment offset piece hs hp => ?_, fun h i segment x hs hp => ?_⟩
  · unfold Shape.Long
    show _ ↔ if scope.wildcard = true then scope.segments.length < _ else _ = scope.segments.length
    split <;> exact decide_eq_true_iff
  · have htakes := h i segment (offset, piece) hs hp
    cases segment with
    | static | param => exact ⟨nofun, htakes⟩
    | rest => cases htakes
  · obtain ⟨hrest, htakes⟩ := h i segment x.1 x.2 hs hp
    cases segment with
    | static | param => exact htakes
    | rest name => exact absurd rfl (hrest name)

end Ulo.Http
