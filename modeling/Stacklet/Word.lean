import Stacklet.Number.Binary64
import Stacklet.Source

/-! # Words

The flat language has no grammar: a text is split into words, and each word is an instruction of a
stack machine. Conditional blocks are opened and closed by words of their own; where their jumps go
is not known until the blocks are linked, so instructions are given over what is known of targets.
-/

namespace Stacklet

/-- The values of the stack machine. -/
abbrev Cell := BitVec 64

/-- Instructions of the stack machine, with targets of type `τ`. -/
inductive Instruction (τ : Type) where
  /-- Pushes a constant. -/
  | push (value : Cell)
  /-- Pops two values and pushes their sum. -/
  | plus
  /-- Pops two values and pushes the difference of the second and the first. -/
  | minus
  /-- Pops two values and pushes one if they are equal and zero if not. -/
  | equal
  /-- Pops a value and prints it. -/
  | dump
  /-- Pops a value and jumps if it is zero; opens a block. -/
  | cond (target : τ)
  /-- Jumps; closes the first arm of a block and opens the other. -/
  | alt (target : τ)
  /-- Closes a block. -/
  | close
deriving DecidableEq, Repr

/-- How an instruction is written. -/
def Instruction.text {τ : Type} : Instruction τ → String
  | push value => toString value.toInt
  | plus => "+"
  | minus => "-"
  | equal => "=="
  | dump => "."
  | cond _ => "if"
  | alt _ => "else"
  | close => "end"

/-- Characters between words. -/
def isSeparator (c : Char) : Bool :=
  c = ',' || c = '!' || c = '\'' || c = ' ' || c = '\n' || c = '\t' || c = '\r'

/-- Characters of words. -/
def isWordChar (c : Char) : Bool :=
  !isSeparator c

/-- The words of a text that starts on a line and at a byte offset: the longest runs of characters
that are no separators. -/
def words (line offset : Nat) : List Char → List (Located (List Char))
  | [] => []
  | c :: rest =>
    if isSeparator c then words (line + newlines [c]) (offset + c.utf8Size) rest
    else
      let word := c :: rest.takeWhile isWordChar
      let stop := offset + byteLength word
      ⟨word, ⟨line, offset, stop⟩⟩ :: words line stop (rest.dropWhile isWordChar)
termination_by text => text.length
decreasing_by
  · simp
  · have := (List.dropWhile_sublist (l := rest) isWordChar).length_le
    simp only [List.length_cons]
    omega

/-- The number that a word with an optional sign spells, if it fits in 64 bits with a sign. -/
def readCell? (word : List Char) : Option Cell :=
  let digits := match word with
    | '+' :: digits | '-' :: digits => digits
    | _ => word
  let value : Int := if word.head? = some '-' then -digitsValue digits else digitsValue digits
  if digits ≠ [] ∧ digits.all Char.isDigit ∧
      -0x8000000000000000 ≤ value ∧ value < 0x8000000000000000 then
    some (BitVec.ofInt 64 value)
  else none

/-- The instruction that a word is. -/
def Instruction.ofWord? (word : List Char) : Option (Instruction Unit) :=
  match String.ofList word with
  | "+" => some plus
  | "-" => some minus
  | "." => some dump
  | "print" => some dump
  | "==" => some equal
  | "if" => some (cond ())
  | "else" => some (alt ())
  | "end" => some close
  | _ => (readCell? word).map push

/-- A word that is no instruction. -/
inductive WordError where
  | unknown (word : String)
deriving DecidableEq, Repr

/-- What is said about the error. -/
def WordError.message : WordError → String
  | unknown word => s!"Unknown word `{word}`"

/-- The words of a list that are no instructions. -/
def unknownWords (words : List (Located (List Char))) : List (Located WordError) :=
  words.filterMap fun word =>
    match Instruction.ofWord? word.value with
    | some _ => none
    | none => some ⟨.unknown (String.ofList word.value), word.span⟩

/-- The instructions of a text, or all its unknown words. -/
def readWords (text : List Char) :
    Except (List (Located WordError)) (List (Located (Instruction Unit))) :=
  let read := words 1 0 text
  if (unknownWords read).isEmpty then
    .ok (read.filterMap fun word => (Instruction.ofWord? word.value).map (⟨·, word.span⟩))
  else .error (unknownWords read)

end Stacklet
