import Mathlib.Tactic.Common

/-!
# Percent-decoding

A text is percent-decoded as bytes: each `%` with two hexadecimal digits after it is
the byte they write, and any other byte stands for itself. The bytes are then read as
UTF-8, with U+FFFD for each sequence that is none. An invalid sequence is as long as
it could still have been continued, so that the byte that rules it out is read again
from the start of a character.

Characters are read one byte at a time: `Utf8.first` and `Utf8.next` say what a byte
does between characters and inside one.
-/

variable {bytes : List UInt8} {text : List Char}

namespace Utf8

open List

/-- A character that has begun: its bits so far, how many bytes it is owed, and where
the next one of them lies. -/
structure Begun where
  bits : ℕ
  owed : ℕ
  low : UInt8
  high : UInt8

/-- What stands for an invalid sequence. -/
def replacement : Char := Char.ofNat 0xFFFD

/-- A byte between characters. -/
def first (b : UInt8) : List Char × Option Begun :=
  if b < 0x80 then ([Char.ofNat b.toNat], none)
  else if 0xC2 ≤ b ∧ b ≤ 0xDF then ([], some ⟨b.toNat - 0xC0, 1, 0x80, 0xBF⟩)
  else if b = 0xE0 then ([], some ⟨0, 2, 0xA0, 0xBF⟩)
  else if b = 0xED then ([], some ⟨0xD, 2, 0x80, 0x9F⟩)
  else if 0xE1 ≤ b ∧ b ≤ 0xEF then ([], some ⟨b.toNat - 0xE0, 2, 0x80, 0xBF⟩)
  else if b = 0xF0 then ([], some ⟨0, 3, 0x90, 0xBF⟩)
  else if 0xF1 ≤ b ∧ b ≤ 0xF3 then ([], some ⟨b.toNat - 0xF0, 3, 0x80, 0xBF⟩)
  else if b = 0xF4 then ([], some ⟨4, 3, 0x80, 0x8F⟩)
  else ([replacement], none)

/-- A byte inside a character. -/
def next (c : Begun) (b : UInt8) : List Char × Option Begun :=
  if c.low ≤ b ∧ b ≤ c.high then
    let bits := c.bits * 64 + (b.toNat - 0x80)
    if c.owed ≤ 1 then ([Char.ofNat bits], none) else ([], some ⟨bits, c.owed - 1, 0x80, 0xBF⟩)
  else
    let (text, begun) := first b
    (replacement :: text, begun)

/-- The characters of some bytes, with one that may have begun before them. -/
def lossyFrom : Option Begun → List UInt8 → List Char
  | none, [] => []
  | some _, [] => [replacement]
  | none, b :: bytes => (first b).1 ++ lossyFrom (first b).2 bytes
  | some c, b :: bytes => (next c b).1 ++ lossyFrom (next c b).2 bytes

/-- **The characters of some bytes**, U+FFFD for each invalid sequence. -/
def lossy (bytes : List UInt8) : List Char := lossyFrom none bytes

/-- The bytes of some characters. -/
def encode (text : List Char) : List UInt8 := text.flatMap String.utf8EncodeChar

/-- A byte is a character, or begins one. -/
theorem first_nonempty (b : UInt8) : (first b).1 ≠ [] ∨ (first b).2.isSome = true := by
  unfold first
  split_ifs <;> simp

theorem next_nonempty (c : Begun) (b : UInt8) : (next c b).1 ≠ [] ∨ (next c b).2.isSome = true := by
  unfold next
  split_ifs <;> simp

/-- A character that has begun comes out, if only as the replacement. -/
theorem lossyFrom_some_ne_nil (c : Begun) (bytes : List UInt8) : lossyFrom (some c) bytes ≠ [] := by
  induction bytes generalizing c with
  | nil => exact cons_ne_nil _ _
  | cons b bytes ih =>
    show (next c b).1 ++ lossyFrom (next c b).2 bytes ≠ []
    rcases next_nonempty c b with htext | hbegun
    · exact append_ne_nil_of_left_ne_nil htext _
    · obtain ⟨c', hc'⟩ := Option.isSome_iff_exists.mp hbegun
      rw [hc']
      exact append_ne_nil_of_right_ne_nil _ (ih c')

/-- **Some bytes are some characters.** -/
theorem lossy_ne_nil (h : bytes ≠ []) : lossy bytes ≠ [] := by
  cases bytes with
  | nil => exact absurd rfl h
  | cons b bytes =>
    show (first b).1 ++ lossyFrom (first b).2 bytes ≠ []
    rcases first_nonempty b with htext | hbegun
    · exact append_ne_nil_of_left_ne_nil htext _
    · obtain ⟨c, hc⟩ := Option.isSome_iff_exists.mp hbegun
      rw [hc]
      exact append_ne_nil_of_right_ne_nil _ (lossyFrom_some_ne_nil c bytes)

theorem encode_ne_nil (h : text ≠ []) : encode text ≠ [] := by
  cases text with
  | nil => exact absurd rfl h
  | cons c text =>
    show String.utf8EncodeChar c ++ encode text ≠ []
    refine append_ne_nil_of_left_ne_nil ?_ _
    exact ne_nil_of_length_pos (String.length_utf8EncodeChar c ▸ c.utf8Size_pos)

end Utf8

namespace Percent

/-- The digit a byte writes. -/
def hexDigit (b : UInt8) : Option UInt8 :=
  if 0x30 ≤ b ∧ b ≤ 0x39 then some (b - 0x30)
  else if 0x41 ≤ b ∧ b ≤ 0x46 then some (b - 0x41 + 10)
  else if 0x61 ≤ b ∧ b ≤ 0x66 then some (b - 0x61 + 10)
  else none

/-- The byte that two digits write after a `%`. -/
def escaped (b high low : UInt8) : Option UInt8 :=
  if b = 0x25 then (hexDigit high).bind fun h => (hexDigit low).map fun l => h * 16 + l else none

/-- **The bytes that are written**, by themselves or by `%` and two digits. -/
def decode : List UInt8 → List UInt8
  | b :: high :: low :: bytes =>
    match escaped b high low with
    | some byte => byte :: decode bytes
    | none => b :: decode (high :: low :: bytes)
  | [b, c] => [b, c]
  | [b] => [b]
  | [] => []

theorem decode_ne_nil (h : bytes ≠ []) : decode bytes ≠ [] := by
  unfold decode
  split
  · split <;> exact List.cons_ne_nil _ _
  · exact List.cons_ne_nil _ _
  · exact List.cons_ne_nil _ _
  · exact h

/-- **A text percent-decoded**, read as UTF-8. -/
def decodeText (text : List Char) : List Char := Utf8.lossy (decode (Utf8.encode text))

theorem decodeText_ne_nil (h : text ≠ []) : decodeText text ≠ [] :=
  Utf8.lossy_ne_nil (decode_ne_nil (Utf8.encode_ne_nil h))

example : decodeText ['a', '%', '2', '0', '%', 'C', '3', '%', 'A', '9', '%'] =
    ['a', ' ', 'é', '%'] := by
  decide

end Percent
