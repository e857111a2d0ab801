import Ulo.Http.Pattern

/-!
# The grammar of route patterns, at compile time

The attribute macros check a route's literal with a parser of their own, kept in step by
hand with the one that parses it again at `prepare`. The two refuse a text for the same
reason, and what they accept is what the grammar writes (`check_agrees`).

They differ in form: the macro's parser only says whether it objects, in words, and the
other returns the segments, or a fault. So they are compared through `told`, function by
function, and the grammar is stated beside them as a relation between a text and the
names it gives (`WritesAll`). Which characters are letters is left open (`Alphabet`), but
for `*`: were it one, `{*a}` could be read in two ways.
-/

namespace Ulo.Http.Macros

open List

variable (alphabet : Alphabet)

/-! ## The check of a literal -/

def checkName : Text → Except String Unit
  | [] => .error "a parameter name is empty"
  | first :: chars =>
    if first ≠ '_' ∧ alphabet.isAlphabetic first = false then
      .error "a parameter name starts with `_` or a letter"
    else if chars.any fun c => c != '_' && !alphabet.isAlphanumeric c then
      .error "a parameter name holds only `_`, letters and digits"
    else .ok ()

/-- One turn of the loop over the pieces: the names after it. -/
def checkPiece (last : Bool) (names : List Text) (piece : Text) : Except String (List Text) :=
  if piece = [] then .error "a segment between two `/` is empty"
  else if piece.head? = some '{' then
    if piece.tail.getLast? ≠ some '}' then
      .error "a `\x7b` opens a segment that does not end with `\x7d`"
    else
      let inner := piece.tail.dropLast
      (if inner.head? = some '*' then
        (checkName alphabet inner.tail).bind fun _ =>
          if last then .ok inner.tail else .error "`\x7b*name\x7d` is the last segment only"
      else (checkName alphabet inner).map fun _ => inner).bind fun name =>
        if names.contains name then .error "a parameter name appears twice"
        else .ok (names ++ [name])
  else if piece.any fun c => c == '{' || c == '}' then
    .error "a brace appears outside a whole `\x7bname\x7d` segment"
  else .ok names

def checkPieces (names : List Text) : List Text → Except String Unit
  | [] => .ok ()
  | piece :: pieces => (checkPiece alphabet pieces.isEmpty names piece).bind (checkPieces · pieces)

/-- Why `text` is not a route pattern. -/
def check (text : Text) : Except String Unit :=
  if text.head? ≠ some '/' then .error "a pattern starts with `/`"
  else
    let normalized :=
      if text.getLast? = some '/' ∧ text.dropLast ≠ [] then text.dropLast else text
    if normalized = ['/'] then .ok () else checkPieces alphabet [] (normalized.tail.splitOn '/')

/-! ## What the grammar writes -/

def IsName : Text → Prop
  | [] => False
  | first :: chars =>
    (first = '_' ∨ alphabet.isAlphabetic first = true) ∧
      ∀ c ∈ chars, c = '_' ∨ alphabet.isAlphanumeric c = true

/-- A segment as it is written, with the name it gives. -/
inductive Writes (last : Bool) : Text → Option Text → Prop
  | static {piece : Text} (hne : piece ≠ []) (hbrace : ∀ c ∈ piece, c ≠ '{' ∧ c ≠ '}') :
    Writes last piece none
  | param {name : Text} (hname : IsName alphabet name) :
    Writes last ('{' :: (name ++ ['}'])) (some name)
  | rest {name : Text} (hname : IsName alphabet name) (hlast : last = true) :
    Writes last ('{' :: ('*' :: name ++ ['}'])) (some name)

/-- Segments one after the other, with the names they give. -/
inductive WritesAll : List Text → List Text → Prop
  | nil : WritesAll [] []
  | cons {piece : Text} {name : Option Text} {pieces names : List Text}
    (hpiece : Writes alphabet pieces.isEmpty piece name) (hpieces : WritesAll pieces names) :
    WritesAll (piece :: pieces) (name.toList ++ names)

/-- **The grammar**: a `/`, segments with a `/` between two, no name twice, and a trailing
slash or none. -/
def Grammar (text : Text) : Prop :=
  ∃ pieces names slash, (∀ piece ∈ pieces, '/' ∉ piece) ∧ WritesAll alphabet pieces names ∧
    names.Nodup ∧ (slash = [] ∨ slash = ['/']) ∧ text = '/' :: ['/'].intercalate pieces ++ slash

/-! ## The two parsers -/

variable {alphabet} {last : Bool} {names pieces : List Text} {piece text name : Text}

/-- What a parser answers, with its fault as it is told and `f` of its result. -/
def told {α β : Type} (f : α → β) (x : Except PatternFault α) : Except String β :=
  (x.map f).mapError PatternFault.reason

theorem checkName_eq : checkName alphabet name = told id (Http.checkName alphabet name) := by
  cases name with
  | nil => rfl
  | cons first chars =>
    simp only [checkName, Http.checkName, apply_ite (told _)]
    rfl

theorem head?_ne {c : Char} (h : ∀ rest, text = c :: rest → False) : text.head? ≠ some c :=
  fun hhead => (head?_eq_some_iff.mp hhead).elim h

theorem checkPiece_eq :
    checkPiece alphabet last names piece =
      told Prod.snd (parsePiece alphabet false last names piece) := by
  fun_cases parsePiece alphabet false last names piece with
  | case1 => rfl
  | case2 _ _ hscope | case3 _ _ hscope => cases hscope.1
  | case4 inner hend =>
    rw [checkPiece, if_neg (cons_ne_nil _ _), head?_cons, if_pos rfl, tail_cons, if_pos hend]
    rfl
  | case5 inner hend name hname =>
    simp only [checkPiece, head?_cons, tail_cons, if_neg hend, hname, checkName_eq, named]
    cases Http.checkName alphabet name <;> cases last <;> by_cases hmem : name ∈ names <;>
      simp [hmem, told, Except.bind, Except.map, Except.mapError, PatternFault.reason]
  | case6 inner hend _ _ hname =>
    simp only [checkPiece, head?_cons, tail_cons, if_neg hend, if_neg (head?_ne hname),
      checkName_eq, named]
    cases Http.checkName alphabet inner.dropLast <;> by_cases hmem : inner.dropLast ∈ names <;>
      simp [hmem, told, Except.bind, Except.map, Except.mapError, PatternFault.reason]
  | case7 piece hpiece hbrace hne | case8 piece hpiece hbrace hne =>
    simp only [checkPiece, hne, head?_ne hpiece, hbrace]
    rfl

theorem checkPieces_eq :
    checkPieces alphabet names pieces =
      told (fun _ => ()) (parsePieces alphabet false names pieces) := by
  induction pieces generalizing names with
  | nil => rfl
  | cons piece pieces ih =>
    simp only [checkPieces, parsePieces, checkPiece_eq, ih]
    cases parsePiece alphabet false pieces.isEmpty names piece with
    | error => rfl
    | ok parsed =>
      dsimp only [Except.bind, told, Except.map, Except.mapError]
      cases parsePieces alphabet false parsed.2 pieces <;> rfl

theorem check_eq :
    check alphabet text = told (fun _ => ()) (parseSegments alphabet text false) := by
  simp only [check, parseSegments, checkPieces_eq, apply_ite (told _)]
  rfl

/-! ## What is accepted -/

theorem checkName_iff : checkName alphabet name = .ok () ↔ IsName alphabet name := by
  cases name with
  | nil => simp [checkName, IsName]
  | cons first chars => grind [checkName, IsName]

theorem checkPiece_iff {names' : List Text} (hstar : alphabet.isAlphabetic '*' = false)
    (hnames : names.Nodup) :
    checkPiece alphabet last names piece = .ok names' ↔
      ∃ name, Writes alphabet last piece name ∧ names' = names ++ name.toList ∧ names'.Nodup := by
  constructor
  · intro h
    unfold checkPiece at h
    split at h
    · cases h
    · rename_i hne
      split at h
      · obtain ⟨inner, rfl⟩ := head?_eq_some_iff.mp ‹_›
        split at h
        · cases h
        · obtain ⟨inner, rfl⟩ := getLast?_eq_some_iff.mp (not_not.mp ‹_›)
          obtain ⟨name, hname, h⟩ := bind_ok h
          simp only [tail_cons, dropLast_concat] at hname
          split at h <;> cases h
          rename_i hnew
          rw [contains_iff_mem] at hnew
          refine ⟨some name, ?_, rfl, hnames.snoc fun x hx hname => hnew (hname ▸ hx)⟩
          split at hname
          · obtain ⟨rest, rfl⟩ := head?_eq_some_iff.mp ‹_›
            obtain ⟨_, hok, hname⟩ := bind_ok hname
            split at hname <;> cases hname
            exact .rest (checkName_iff.mp hok) ‹_›
          · obtain ⟨_, hok, rfl⟩ := map_ok hname
            exact .param (checkName_iff.mp hok)
      · split at h <;> cases h
        rename_i hbrace
        exact ⟨none, .static hne (by simpa using hbrace), (append_nil _).symm, hnames⟩
  · rintro ⟨name, hwrites, rfl, hfresh⟩
    unfold checkPiece
    cases hwrites with
    | static hne hbrace =>
      have hhead : piece.head? ≠ some '{' := head?_ne fun rest heq =>
        (hbrace '{' (heq ▸ mem_cons_self)).1 rfl
      simpa [hne, hhead] using hbrace
    | @param name hname =>
      have hnot : name.head? ≠ some '*' := head?_ne fun rest heq => by
        subst heq
        simp [IsName, hstar] at hname
      have hnew : name ∉ names := fun h =>
        (nodup_append.mp hfresh).2.2 name h name mem_cons_self rfl
      simp [hnot, checkName_iff.mpr hname, Except.bind, Except.map, hnew]
    | @rest name hname hlast =>
      have hnew : name ∉ names := fun h =>
        (nodup_append.mp hfresh).2.2 name h name mem_cons_self rfl
      simp only [tail_cons, getLast?_concat, dropLast_concat, head?_cons, checkName_iff.mpr hname]
      simp [Except.bind, hnew, hlast]

theorem not_mem_of_mem_splitOn (h : piece ∈ text.splitOn '/') : '/' ∉ piece := by
  induction text generalizing piece with
  | nil => simp_all
  | cons c text ih =>
    rw [splitOn] at ih
    rw [splitOn, splitOnP_cons_eq_if_modifyHead] at h
    split at h
    · grind
    · cases hpieces : splitOnP (· == '/') text with
      | nil => exact absurd hpieces (splitOnP_ne_nil _ _)
      | cons first pieces => grind [modifyHead_cons]

theorem checkPieces_iff (hstar : alphabet.isAlphabetic '*' = false) (hnames : names.Nodup) :
    checkPieces alphabet names pieces = .ok () ↔
      ∃ own, WritesAll alphabet pieces own ∧ (names ++ own).Nodup := by
  induction pieces generalizing names with
  | nil => exact ⟨fun _ => ⟨[], .nil, by simpa using hnames⟩, fun _ => rfl⟩
  | cons piece pieces ih =>
    constructor
    · intro h
      obtain ⟨_, hpiece, h⟩ := bind_ok h
      obtain ⟨name, hwrites, rfl, hnodup⟩ := (checkPiece_iff hstar hnames).mp hpiece
      obtain ⟨own, hown, hnodup⟩ := (ih hnodup).mp h
      exact ⟨_, .cons hwrites hown, by rwa [← append_assoc]⟩
    · rintro ⟨own, hwrites, hnodup⟩
      cases hwrites with
      | @cons _ name _ own hpiece hpieces =>
        rw [← append_assoc] at hnodup
        have hnew := (nodup_append.mp hnodup).1
        rw [checkPieces, (checkPiece_iff hstar hnames).mpr ⟨name, hpiece, rfl, hnew⟩]
        exact (ih hnew).mpr ⟨own, hpieces, hnodup⟩

/-- Segments do not end in a slash. -/
theorem WritesAll.ends (h : WritesAll alphabet pieces names)
    (hslash : ∀ piece ∈ pieces, '/' ∉ piece) (hne : pieces ≠ []) :
    ∃ body c, ['/'].intercalate pieces = body ++ [c] ∧ c ≠ '/' := by
  induction h with
  | nil => exact absurd rfl hne
  | @cons piece name pieces names hpiece hpieces ih =>
    obtain ⟨hfirst, hslashes⟩ := forall_mem_cons.mp hslash
    cases pieces with
    | nil =>
      have hpiece : piece ≠ [] := by cases hpiece <;> simp_all
      refine ⟨piece.dropLast, _, ?_, ne_of_mem_of_not_mem (getLast_mem hpiece) hfirst⟩
      simp [intercalate, dropLast_concat_getLast]
    | cons =>
      obtain ⟨body, c, hbody, hc⟩ := ih hslashes (cons_ne_nil _ _)
      exact ⟨_, c, by rw [intercalate_cons_cons, hbody, ← append_assoc], hc⟩

theorem normalize_spec (h : text.head? = some '/') :
    ∃ rest slash, normalize text = '/' :: rest ∧ (slash = [] ∨ slash = ['/']) ∧
      text = '/' :: rest ++ slash := by
  unfold normalize
  split
  · obtain ⟨base, rfl⟩ := getLast?_eq_some_iff.mp (‹_ ∧ _›).1
    cases base with
    | nil => simp_all
    | cons c base =>
      cases h
      exact ⟨base, ['/'], dropLast_concat, .inr rfl, rfl⟩
  · obtain ⟨rest, rfl⟩ := head?_eq_some_iff.mp h
    exact ⟨rest, [], rfl, .inl rfl, (append_nil _).symm⟩

theorem check_normalized (h : text.head? = some '/') :
    check alphabet text = if normalize text = ['/'] then .ok ()
      else checkPieces alphabet [] ((normalize text).tail.splitOn '/') :=
  if_neg (not_not.mpr h)

theorem check_iff (hstar : alphabet.isAlphabetic '*' = false) :
    check alphabet text = .ok () ↔ Grammar alphabet text := by
  constructor
  · intro h
    by_cases hhead : text.head? = some '/'
    · rw [check_normalized hhead] at h
      obtain ⟨rest, slash, hrest, hslash, rfl⟩ := normalize_spec hhead
      rw [hrest] at h
      split at h
      · rename_i hroot
        cases hroot
        exact ⟨[], [], slash, nofun, .nil, .nil, hslash, rfl⟩
      · obtain ⟨own, hwrites, hown⟩ := (checkPieces_iff hstar .nil).mp h
        exact ⟨_, own, slash, fun _ => not_mem_of_mem_splitOn, hwrites, hown, hslash,
          by rw [tail_cons, intercalate_splitOn]⟩
    · rw [check, if_pos hhead] at h
      cases h
  · rintro ⟨pieces, names, slash, hpieces, hwrites, hnames, hslash, rfl⟩
    by_cases hne : pieces = []
    · subst hne
      rcases hslash with rfl | rfl <;> rfl
    · obtain ⟨body, c, hbody, hc⟩ := hwrites.ends hpieces hne
      have hcheck := (checkPieces_iff hstar .nil).mpr ⟨names, hwrites, hnames⟩
      rw [← splitOn_intercalate '/' hpieces hne, hbody] at hcheck
      have hnormalize : normalize ('/' :: body ++ [c] ++ slash) = '/' :: body ++ [c] := by
        rcases hslash with rfl | rfl
        · rw [append_nil, normalize, getLast?_concat, if_neg (by simp [hc])]
        · rw [normalize, getLast?_concat, dropLast_concat, if_pos ⟨rfl, cons_ne_nil _ _⟩]
      rw [hbody, ← cons_append, check_normalized rfl, hnormalize, if_neg (by simp)]
      exact hcheck

/-- **The two grammars agree**: both parsers accept a text, or both refuse it for one
reason, and they accept what the grammar writes. -/
theorem check_agrees (alphabet : Alphabet) (hstar : alphabet.isAlphabetic '*' = false)
    (text : Text) :
    check alphabet text =
        ((Pattern.parse alphabet text).map fun _ => ()).mapError (·.fault.reason) ∧
      (check alphabet text = .ok () ↔ Grammar alphabet text) := by
  refine ⟨check_eq.trans ?_, check_iff hstar⟩
  unfold Pattern.parse
  split <;> simp only [*] <;> rfl

theorem check_agrees_parameter :
    Grammar ⟨Char.isAlpha, Char.isAlphanum⟩ "/\x7ba\x7d".toList :=
  (check_agrees _ (by decide) _).2.mp (by decide)

end Ulo.Http.Macros
