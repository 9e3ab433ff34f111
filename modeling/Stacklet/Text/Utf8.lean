/-! # UTF-8

Bytes are read as text character by character. A byte that can start no character, or a character
that breaks off, is read as one invalid sequence as long as it could still have gone on.
-/

namespace Stacklet.Utf8

/-- What the first byte of a longer character says: its bits of the code point, the range of the
next byte, and how many bytes follow. -/
structure Lead where
  bits : Nat
  low : Nat
  high : Nat
  following : Nat
deriving DecidableEq, Repr

/-- The lead that a byte is. Overlong forms, surrogates and numbers beyond the last code point are
ruled out by the range of the second byte. -/
def lead? (byte : Nat) : Option Lead :=
  if 0xc2 ≤ byte ∧ byte ≤ 0xdf then some ⟨byte - 0xc0, 0x80, 0xbf, 1⟩
  else if byte = 0xe0 then some ⟨0, 0xa0, 0xbf, 2⟩
  else if byte = 0xed then some ⟨0xd, 0x80, 0x9f, 2⟩
  else if 0xe1 ≤ byte ∧ byte ≤ 0xef then some ⟨byte - 0xe0, 0x80, 0xbf, 2⟩
  else if byte = 0xf0 then some ⟨0, 0x90, 0xbf, 3⟩
  else if 0xf1 ≤ byte ∧ byte ≤ 0xf3 then some ⟨byte - 0xf0, 0x80, 0xbf, 3⟩
  else if byte = 0xf4 then some ⟨4, 0x80, 0x8f, 3⟩
  else none

/-- Reads the bytes that follow a lead: the character, unless it breaks off, and the bytes behind.
-/
def follow (bits low high : Nat) : (following : Nat) → List UInt8 → Option Char × List UInt8
  | 0, bytes => (some (Char.ofNat bits), bytes)
  | _ + 1, [] => (none, [])
  | following + 1, byte :: bytes =>
    if low ≤ byte.toNat ∧ byte.toNat ≤ high then
      follow (64 * bits + byte.toNat % 64) 0x80 0xbf following bytes
    else (none, byte :: bytes)

/-- Reads a character that starts with a byte; nothing for an invalid sequence. -/
def first (byte : UInt8) (bytes : List UInt8) : Option Char × List UInt8 :=
  if byte.toNat < 0x80 then (some (Char.ofNat byte.toNat), bytes)
  else
    match lead? byte.toNat with
    | some lead => follow lead.bits lead.low lead.high lead.following bytes
    | none => (none, bytes)

theorem follow_length (bits low high following : Nat) (bytes : List UInt8) :
    (follow bits low high following bytes).2.length ≤ bytes.length := by
  induction following generalizing bits low high bytes with
  | zero => simp [follow]
  | succ following ih =>
    cases bytes with
    | nil => simp [follow]
    | cons byte bytes =>
      simp only [follow]
      split
      · have := ih (64 * bits + byte.toNat % 64) 0x80 0xbf bytes
        simp only [List.length_cons]
        omega
      · simp

theorem first_length (byte : UInt8) (bytes : List UInt8) :
    (first byte bytes).2.length ≤ bytes.length := by
  unfold first
  split
  · simp
  · split
    · exact follow_length ..
    · simp

/-- The characters of bytes, with nothing in the place of each invalid sequence. -/
def decode : List UInt8 → List (Option Char)
  | [] => []
  | byte :: bytes =>
    let read := first byte bytes
    read.1 :: decode read.2
termination_by bytes => bytes.length
decreasing_by
  have := first_length byte bytes
  simp only [List.length_cons]
  omega

/-- The text that bytes are, if they are text. -/
def text? (bytes : ByteArray) : Option (List Char) :=
  (decode bytes.toList).mapM id

/-- The text that bytes are, with a replacement character for each invalid sequence. -/
def textOf (bytes : ByteArray) : List Char :=
  (decode bytes.toList).map (·.getD '\ufffd')

end Stacklet.Utf8
