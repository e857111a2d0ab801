import Mathlib.Tactic

/-!
# Frames behind their length

A TCP link writes each frame behind its length in four bytes and reads one back with two exact
reads, of the four bytes and of the body. A byte stream that ends between two frames has ended;
one that ends inside a frame was cut, and the reader of a cut stream should say so.

An end of the stream is one error, `UnexpectedEof`, at either read. At the body it is passed on.
At the four bytes it is taken for the end between two frames, whether or not some of the four had
been read: a stream cut after one, two or three of them ends cleanly (`clean_end_inside_prefix`).
So the reader is right about every cut that leaves the length whole (`frame_round_trip`).

What a read answers with is the peer's and the network's to choose; a `Reader` is any division of
a byte stream into reads, with any failures between them.
-/

namespace Ulo.Tcp

open List

/-- `io::ErrorKind`, as far as a reader tells the kinds apart. -/
inductive ErrorKind
  | unexpectedEof
  | invalidData
  | other
deriving DecidableEq

structure IoError where
  kind : ErrorKind
  text : String
deriving DecidableEq

/-- What one read finds. -/
inductive Chunk
  | bytes (found : List UInt8) (some_ : found ≠ [])
  | fails (error : IoError)

/-- **A connection's reading half**, by what its reads find; then its peer has closed it. -/
abbrev Reader := List Chunk

namespace Reader

/-- `read_exact`: reads until `n` bytes are there. What a read finds beyond them stays. -/
def readExact : ℕ → Reader → Except IoError (List UInt8) × Reader
  | 0, r => (.ok [], r)
  | _ + 1, [] => (.error ⟨.unexpectedEof, "unexpected end of file"⟩, [])
  | _ + 1, .fails error :: r => (.error error, r)
  | n + 1, .bytes found _ :: r =>
    if h : found.drop (n + 1) ≠ [] then (.ok (found.take (n + 1)),
      .bytes (found.drop (n + 1)) h :: r)
    else
      match readExact (n + 1 - found.length) r with
      | (.ok rest, r) => (.ok (found ++ rest), r)
      | (.error error, r) => (.error error, r)

/-- The bytes of a stream whose reads do not fail. -/
inductive Yields : Reader → List UInt8 → Prop
  | nil : Yields [] []
  | cons (found : List UInt8) (h : found ≠ []) {r : Reader} {bytes : List UInt8} :
      Yields r bytes → Yields (.bytes found h :: r) (found ++ bytes)

end Reader

/-- `u32::to_be_bytes` -/
def toBeBytes (n : ℕ) : List UInt8 :=
  [.ofNat (n / 2 ^ 24), .ofNat (n / 2 ^ 16), .ofNat (n / 2 ^ 8), .ofNat n]

/-- `u32::from_be_bytes` -/
def fromBeBytes (bytes : List UInt8) : ℕ := bytes.foldl (fun n byte => 256 * n + byte.toNat) 0

/-- `Link::limit`: the largest frame read or written, bounded by the four bytes. -/
def limit (maxFrame : Option ℕ) : ℕ := min (maxFrame.getD (1024 * 1024)) (2 ^ 32 - 1)

/-- **`Reading::frame`.** -/
def frame (limit : ℕ) (r : Reader) : Except IoError (Option (List UInt8)) × Reader :=
  match r.readExact 4 with
  | (.error error, r) => if error.kind = .unexpectedEof then (.ok none, r) else (.error error, r)
  | (.ok head, r) =>
    let len := fromBeBytes head
    if limit < len then
      (.error ⟨.invalidData, s!"a frame of {len} bytes is over the limit of {limit} bytes"⟩, r)
    else
      match r.readExact len with
      | (.error error, r) => (.error error, r)
      | (.ok body, r) => (.ok (some body), r)

/-- What `k` calls of `frame` answer, one after the other. -/
def frames (limit : ℕ) : ℕ → Reader → List (Except IoError (Option (List UInt8)))
  | 0, _ => []
  | k + 1, r => (frame limit r).1 :: frames limit k (frame limit r).2

/-- A frame as `run_connection` writes it. -/
def written (body : List UInt8) : List UInt8 := toBeBytes (body.length % 2 ^ 32) ++ body

/-! ## Exact reads -/

section Exact

variable {r : Reader} {bytes want rest : List UInt8}

/-- **What an exact read answers depends on the bytes alone**, however they arrive. -/
theorem Reader.Yields.readExact (h : r.Yields (want ++ rest)) :
    ∃ r', r.readExact want.length = (.ok want, r') ∧ r'.Yields rest := by
  generalize hbytes : want ++ rest = bytes at h
  induction h generalizing want with
  | nil =>
    obtain ⟨rfl, rfl⟩ := append_eq_nil_iff.mp hbytes
    exact ⟨[], rfl, .nil⟩
  | @cons found hfound r bytes hr ih =>
    cases want with
    | nil =>
      refine ⟨_, rfl, ?_⟩
      rw [nil_append] at hbytes
      exact hbytes ▸ .cons found hfound hr
    | cons b want =>
      rcases append_eq_append_iff.mp hbytes with ⟨more, hfoundEq, hrest⟩ | ⟨more, hwant, hbytesEq⟩
      · -- the read finds what is wanted, and `more`
        have hdrop : found.drop (want.length + 1) = more := by
          rw [hfoundEq]
          exact drop_left' rfl
        have htake : found.take (want.length + 1) = b :: want := by
          rw [hfoundEq]
          exact take_left' rfl
        by_cases hmore : more = []
        · subst hmore
          rw [append_nil] at hfoundEq
          rw [nil_append] at hrest
          refine ⟨r, ?_, hrest ▸ hr⟩
          have hzero : want.length + 1 - found.length = 0 := by
            rw [hfoundEq, length_cons, Nat.sub_self]
          simp only [Reader.readExact, length_cons]
          rw [dif_neg (by rw [hdrop]; exact fun h => h rfl), hzero, Reader.readExact, hfoundEq]
          exact congrArg (fun l => (Except.ok l, r)) (append_nil _)
        · refine ⟨.bytes more hmore :: r, ?_, hrest ▸ .cons more hmore hr⟩
          simp only [Reader.readExact, length_cons, hdrop, htake]
          exact dif_pos hmore
      · -- the read finds less
        obtain ⟨r', hread, hyields⟩ := ih hbytesEq.symm
        refine ⟨r', ?_, hyields⟩
        have hlen : want.length + 1 - found.length = more.length := by
          have := congrArg length hwant
          rw [length_append, length_cons] at this
          omega
        have hdrop : found.drop (want.length + 1) = [] := by
          refine drop_eq_nil_of_le ?_
          have := congrArg length hwant
          rw [length_append, length_cons] at this
          omega
        simp only [Reader.readExact, length_cons]
        rw [dif_neg (by rw [hdrop]; exact fun h => h rfl), hlen, hread, hwant]

/-- **A stream that ends too early** is an unexpected end of file. -/
theorem Reader.Yields.readExact_short (h : r.Yields bytes) {n : ℕ} (hshort : bytes.length < n) :
    ∃ error r', r.readExact n = (.error error, r') ∧ error.kind = .unexpectedEof ∧
      r'.Yields [] := by
  induction h generalizing n with
  | nil =>
    obtain ⟨n, rfl⟩ := Nat.exists_eq_succ_of_ne_zero (Nat.ne_of_gt hshort)
    exact ⟨_, _, rfl, rfl, .nil⟩
  | @cons found hfound r bytes hr ih =>
    rw [length_append] at hshort
    obtain ⟨error, r', hread, hkind, hend⟩ := ih (n := n - found.length) (by omega)
    obtain ⟨n, rfl⟩ := Nat.exists_eq_succ_of_ne_zero (n := n) (by omega)
    refine ⟨error, r', ?_, hkind, hend⟩
    have hdrop : found.drop (n + 1) = [] := drop_eq_nil_of_le (by omega)
    simp only [Reader.readExact]
    rw [dif_neg (by rw [hdrop]; exact fun h => h rfl), hread]

end Exact

/-! ## Frames -/

theorem length_toBeBytes (n : ℕ) : (toBeBytes n).length = 4 := rfl

/-- The four bytes hold every length below `2 ^ 32`. -/
theorem fromBeBytes_toBeBytes {n : ℕ} (h : n < 2 ^ 32) : fromBeBytes (toBeBytes n) = n := by
  simp only [fromBeBytes, toBeBytes, foldl_cons, foldl_nil, UInt8.toNat_ofNat']
  omega

theorem limit_lt (maxFrame : Option ℕ) : limit maxFrame < 2 ^ 32 :=
  Nat.lt_of_le_of_lt (Nat.min_le_right _ _) (by norm_num)

section Frames

variable {maxFrame : Option ℕ} {r : Reader} {body rest : List UInt8}

theorem written_eq (h : body.length ≤ limit maxFrame) :
    written body = toBeBytes body.length ++ body := by
  rw [written, Nat.mod_eq_of_lt (Nat.lt_of_le_of_lt h (limit_lt maxFrame))]

/-- A whole frame is read back. -/
theorem frame_written (hbody : body.length ≤ limit maxFrame) (h : r.Yields (written body ++ rest)) :
    ∃ r', frame (limit maxFrame) r = (.ok (some body), r') ∧ r'.Yields rest := by
  rw [written_eq hbody, append_assoc] at h
  obtain ⟨r₁, hhead, h₁⟩ := h.readExact
  obtain ⟨r₂, hread, h₂⟩ := h₁.readExact
  refine ⟨r₂, ?_, h₂⟩
  rw [length_toBeBytes] at hhead
  simp only [frame, hhead, fromBeBytes_toBeBytes (Nat.lt_of_le_of_lt hbody (limit_lt maxFrame)),
    hread]
  exact if_neg (Nat.not_lt.mpr hbody)

/-- At the end of the stream, and inside a length, the answer is a clean end. -/
theorem frame_of_short {bytes : List UInt8} (h : r.Yields bytes) (hshort : bytes.length < 4)
    (n : ℕ) : (frame n r).1 = .ok none := by
  obtain ⟨error, r', hread, hkind, -⟩ := h.readExact_short hshort
  simp only [frame, hread, hkind, if_true]

/-- A body that is cut is an error. -/
theorem frame_cut (hbody : body.length ≤ limit maxFrame) {cut : List UInt8}
    (hcut : cut <+: written body)
    (hne : cut ≠ written body) (hhead : 4 ≤ cut.length) (h : r.Yields cut) :
    ∃ error, (frame (limit maxFrame) r).1 = .error error := by
  rw [written_eq hbody] at hcut hne
  obtain ⟨got, rfl⟩ : toBeBytes body.length <+: cut :=
    prefix_of_prefix_length_le (prefix_append _ _) hcut hhead
  have hgot : got <+: body := (prefix_append_right_inj _).mp hcut
  have hlt : got.length < body.length := by
    refine Nat.lt_of_le_of_ne hgot.length_le fun heq => hne ?_
    rw [hgot.eq_of_length heq]
  obtain ⟨r₁, hread, h₁⟩ := h.readExact
  obtain ⟨error, r₂, hshort, -, -⟩ := h₁.readExact_short hlt
  refine ⟨error, ?_⟩
  rw [length_toBeBytes] at hread
  simp only [frame, hread, fromBeBytes_toBeBytes (Nat.lt_of_le_of_lt hbody (limit_lt maxFrame)),
    hshort]
  rw [if_neg (Nat.not_lt.mpr hbody)]

/-- **Whole frames are read back, and what is behind them is left.** -/
theorem frames_written {bodies : List (List UInt8)}
    (hbodies : ∀ body ∈ bodies, body.length ≤ limit maxFrame)
    (h : r.Yields (bodies.flatMap written ++ rest)) (k : ℕ) : ∃ r', r'.Yields rest ∧
      frames (limit maxFrame) (bodies.length + k) r
        = bodies.map (fun body => .ok (some body)) ++ frames (limit maxFrame) k r' := by
  induction bodies generalizing r with
  | nil => exact ⟨r, h, by rw [length_nil, Nat.zero_add, map_nil, nil_append]⟩
  | cons body bodies ih =>
    rw [flatMap_cons, append_assoc] at h
    obtain ⟨r₁, hframe, h₁⟩ := frame_written (hbodies body mem_cons_self) h
    obtain ⟨r', h', hframes⟩ := ih (fun body hb => hbodies body (mem_cons_of_mem _ hb)) h₁
    refine ⟨r', h', ?_⟩
    rw [length_cons, Nat.add_right_comm, frames, hframe, map_cons, cons_append, hframes]

end Frames

/-- **A clean end is told from a cut one exactly where the cut leaves the length whole.** For every
list of frames within the limit, however their bytes arrive: the frames are read back, and then the
end; and of a stream that is cut inside a frame, the whole frames before it are read back, and then
there is an error if the cut is behind the four bytes of the length, and only then. -/
theorem frame_round_trip (maxFrame : Option ℕ) (bodies : List (List UInt8))
    (hbodies : ∀ body ∈ bodies, body.length ≤ limit maxFrame) :
    (∀ r : Reader, r.Yields (bodies.flatMap written) →
      frames (limit maxFrame) (bodies.length + 1) r
        = bodies.map (fun body => .ok (some body)) ++ [.ok none]) ∧
    (∀ before body after cut, bodies = before ++ body :: after → cut <+: written body →
      cut ≠ written body → ∀ r : Reader, r.Yields (before.flatMap written ++ cut) →
        ((∃ error, frames (limit maxFrame) (before.length + 1) r
          = before.map (fun body => .ok (some body)) ++ [.error error]) ↔ 4 ≤ cut.length)) := by
  refine ⟨fun r h => ?_, fun before body after cut hall hcut hne r h => ?_⟩
  · rw [← append_nil (bodies.flatMap written)] at h
    obtain ⟨r', h', hframes⟩ := frames_written hbodies h 1
    rw [hframes, frames, frame_of_short h' (by norm_num), frames]
  · subst hall
    have hbefore : ∀ b ∈ before, b.length ≤ limit maxFrame :=
      fun b hb => hbodies b (mem_append_left _ hb)
    obtain ⟨r', h', hframes⟩ := frames_written hbefore h 1
    rw [hframes]
    constructor
    · rintro ⟨error, herror⟩
      by_contra hshort
      rw [frames, frame_of_short h' (Nat.lt_of_not_le hshort), append_cancel_left_eq] at herror
      cases herror
    · intro hhead
      obtain ⟨error, herror⟩ := frame_cut (hbodies body (by simp)) hcut hne hhead h'
      exact ⟨error, by rw [frames, herror, frames]⟩

/-- Two frames of one byte each, the second cut before its body. -/
theorem frame_round_trip_cut : ∃ error, frames (limit none) 2
      [.bytes [0, 0, 0, 1, 7, 0] (by decide), .bytes [0, 0, 1] (by decide)]
    = [.ok (some [7]), .error error] := by
  have h := (frame_round_trip none [[7], [9]] (by decide)).2 [[7]] [9] [] [0, 0, 0, 1] rfl
    (by decide) (by decide)
    [.bytes [0, 0, 0, 1, 7, 0] (by decide), .bytes [0, 0, 1] (by decide)]
    (.cons [0, 0, 0, 1, 7, 0] (by decide) (.cons [0, 0, 1] (by decide) .nil))
  exact h.mpr (by decide)

/-- **A stream cut inside a length ends cleanly**: of a frame of one byte, two bytes arrive. -/
theorem clean_end_inside_prefix : written [7] = [0, 0, 0, 1, 7] ∧
    frames (limit none) 1 [.bytes [0, 0] (by decide)] = [.ok none] :=
  ⟨rfl, rfl⟩

end Ulo.Tcp
