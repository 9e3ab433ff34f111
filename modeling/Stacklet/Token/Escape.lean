/-! # Escapes in string literals

Between its quotes a string literal may hold escapes: a backslash and a letter for a control
character, a hexadecimal code point, or any ASCII punctuation character for itself. Reading stops at
the leftmost escape that is none of these.
-/

namespace Stacklet

/-- Why the content of a string literal cannot be read. -/
inductive EscapeError where
  /-- A backslash before a character that it does not go with. -/
  | unknown (c : Char)
  /-- A backslash with nothing behind it. -/
  | dangling
  /-- A numbered escape that names no character, without its backslash. -/
  | badCodePoint (text : List Char)
deriving DecidableEq, Repr

namespace Escape

/-- The control character that a letter stands for. -/
def control? : Char → Option Char
  | 'n' => some '\n'
  | 't' => some '\t'
  | 'r' => some '\r'
  | '0' => some '\x00'
  | 'a' => some '\x07'
  | 'f' => some '\x0c'
  | 'v' => some '\x0b'
  | 'e' => some '\x1b'
  | _ => none

/-- ASCII characters that are seen and neither letters nor digits. -/
def isPunctuation (c : Char) : Bool :=
  '!' ≤ c && c ≤ '~' && !c.isAlphanum

/-- The value of a hexadecimal digit. -/
def hexDigit? (c : Char) : Option Nat :=
  if '0' ≤ c && c ≤ '9' then some (c.toNat - '0'.toNat)
  else if 'a' ≤ c && c ≤ 'f' then some (c.toNat - 'a'.toNat + 10)
  else if 'A' ≤ c && c ≤ 'F' then some (c.toNat - 'A'.toNat + 10)
  else none

/-- The value of a string of hexadecimal digits. -/
def hexValue? (digits : List Char) : Option Nat :=
  digits.foldlM (fun value digit => (hexDigit? digit).map (16 * value + ·)) 0

/-- The character with a hexadecimal code point; surrogates and numbers beyond the last code point
name none. -/
def codePoint? (digits : List Char) : Option Char :=
  (hexValue? digits).bind fun value =>
    if value.isValidChar then some (Char.ofNat value) else none

/-- A character and what follows its escape. -/
abbrev Read := Except EscapeError (Char × List Char)

/-- Reads exactly `count` hexadecimal digits behind the letter `mark`. -/
def readDigits (mark : Char) (count : Nat) (text : List Char) : Read :=
  let digits := text.take count
  match if digits.length = count then codePoint? digits else none with
  | some c => .ok (c, text.drop count)
  | none => .error (.badCodePoint (mark :: digits))

/-- Reads one to six hexadecimal digits up to a closing brace. -/
def readBraced (text : List Char) : Read :=
  let digits := text.takeWhile (· ≠ '\x7d')
  match text.dropWhile (· ≠ '\x7d') with
  | [] => .error (.badCodePoint ('u' :: '\x7b' :: digits))
  | close :: rest =>
    match if 1 ≤ digits.length ∧ digits.length ≤ 6 then codePoint? digits else none with
    | some c => .ok (c, rest)
    | none => .error (.badCodePoint ('u' :: '\x7b' :: digits ++ [close]))

/-- Reads what stands behind a backslash. -/
def read : List Char → Read
  | [] => .error .dangling
  | 'x' :: rest => readDigits 'x' 2 rest
  | 'u' :: '\x7b' :: rest => readBraced rest
  | 'u' :: rest => readDigits 'u' 4 rest
  | c :: rest =>
    match control? c with
    | some control => .ok (control, rest)
    | none => if isPunctuation c then .ok (c, rest) else .error (.unknown c)

theorem readDigits_length {mark c : Char} {count : Nat} {text rest : List Char}
    (h : readDigits mark count text = .ok (c, rest)) : rest.length ≤ text.length := by
  simp only [readDigits] at h
  split at h
  · cases h
    simp
  · cases h

theorem readBraced_length {c : Char} {text rest : List Char}
    (h : readBraced text = .ok (c, rest)) : rest.length ≤ text.length := by
  simp only [readBraced] at h
  split at h
  · cases h
  · rename_i close tail htail
    have hle : (close :: tail).length ≤ text.length :=
      htail ▸ (List.dropWhile_sublist _).length_le
    split at h
    · cases h
      simp only [List.length_cons] at hle
      omega
    · cases h

/-- An escape takes up at least one character behind its backslash. -/
theorem read_length {c : Char} {text rest : List Char} (h : read text = .ok (c, rest)) :
    rest.length < text.length := by
  unfold read at h
  split at h
  · cases h
  · have := readDigits_length h
    simp only [List.length_cons]
    omega
  · have := readBraced_length h
    simp only [List.length_cons]
    omega
  · have := readDigits_length h
    simp only [List.length_cons]
    omega
  · split at h
    · cases h
      simp
    · split at h
      · cases h
        simp
      · cases h

end Escape

/-- The text that the content of a string literal denotes. -/
def unescape : List Char → Except EscapeError (List Char)
  | [] => .ok []
  | c :: rest =>
    if c = '\\' then
      match _read : Escape.read rest with
      | .error error => .error error
      | .ok (escaped, next) => (unescape next).map (escaped :: ·)
    else (unescape rest).map (c :: ·)
termination_by text => text.length
decreasing_by
  · have := Escape.read_length _read
    simp only [List.length_cons]
    omega
  · simp

end Stacklet
