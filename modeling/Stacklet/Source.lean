/-! # Source texts, spans and positions

A source is a named text. Whatever is read from it carries a span: the byte range of its lexeme and
the line counted when it was read. Line-column positions are derived from byte offsets when they are
shown, so a span stays valid without its source.
-/

namespace Stacklet

/-- A named text. -/
structure Source where
  name : String
  text : List Char
deriving DecidableEq

/-- Length of a text in UTF-8. -/
def byteLength (text : List Char) : Nat :=
  text.foldr (fun c length => c.utf8Size + length) 0

/-- Number of line breaks in a text. -/
def newlines (text : List Char) : Nat :=
  text.count '\n'

@[simp] theorem byteLength_nil : byteLength [] = 0 := rfl

@[simp] theorem byteLength_cons (c : Char) (text : List Char) :
    byteLength (c :: text) = c.utf8Size + byteLength text := rfl

@[simp] theorem byteLength_append (left right : List Char) :
    byteLength (left ++ right) = byteLength left + byteLength right := by
  induction left with
  | nil => simp
  | cons c left ih => simp [ih, Nat.add_assoc]

theorem newlines_cons (c : Char) (text : List Char) :
    newlines (c :: text) = (if c = '\n' then 1 else 0) + newlines text := by
  simp only [newlines, List.count_cons, beq_iff_eq, Nat.add_comm]

@[simp] theorem newlines_append (left right : List Char) :
    newlines (left ++ right) = newlines left + newlines right := by
  simp [newlines]

/-- The characters that lie wholly within the first `offset` bytes. An offset beyond the end gives
the whole text, one inside a character stops before it. -/
def charsWithin (offset : Nat) : List Char → List Char
  | [] => []
  | c :: rest =>
    if c.utf8Size ≤ offset then c :: charsWithin (offset - c.utf8Size) rest else []

/-- The characters that follow `charsWithin offset`. -/
def charsBeyond (offset : Nat) (text : List Char) : List Char :=
  text.drop (charsWithin offset text).length

/-- Whether a byte offset lies between two characters, at either end, or beyond the end. -/
def isBoundary (offset : Nat) (text : List Char) : Bool :=
  byteLength (charsWithin offset text) = min offset (byteLength text)

/-- A byte range of a source, with the line that was counted when it was read. -/
structure Span where
  line : Nat
  start : Nat
  stop : Nat
deriving DecidableEq, Repr

/-- A value read from a source. -/
structure Located (α : Type) where
  value : α
  span : Span
deriving DecidableEq, Repr

/-- Applies a function to the value and keeps the span. -/
def Located.map {α β : Type} (f : α → β) (located : Located α) : Located β :=
  ⟨f located.value, located.span⟩

/-- What is behind the last newline of a text. -/
def lastLine (text : List Char) : List Char :=
  (text.reverse.takeWhile (· ≠ '\n')).reverse

/-- A place between characters; lines and columns count from one. -/
structure Position where
  line : UInt32
  column : UInt32
deriving DecidableEq, Repr

/-- While it does not overflow, a word of 32 bits goes up by what is added. -/
theorem toNat_add_ofNat {word : UInt32} {count : Nat} (h : word.toNat + count < 0x100000000) :
    (word + .ofNat count).toNat = word.toNat + count := by
  rw [UInt32.toNat_add, UInt32.toNat_ofNat']
  omega

theorem toNat_one_add_ofNat {count : Nat} (h : count < 0xffffffff) :
    (1 + UInt32.ofNat count).toNat = 1 + count :=
  toNat_add_ofNat (by rw [UInt32.toNat_one]; omega)

namespace Position

/-- The place behind a text that starts at line one, column one. Lines and columns are counted in 32
bits, so a text of too many comes to places that were there before. -/
def after (text : List Char) : Position where
  line := 1 + .ofNat (newlines text)
  column := 1 + .ofNat (lastLine text).length

theorem toNat_line_after {text : List Char} (h : newlines text < 0xffffffff) :
    (after text).line.toNat = 1 + newlines text :=
  toNat_one_add_ofNat h

/-- `line:column`. -/
def render (position : Position) : String :=
  s!"{position.line}:{position.column}"

end Position

/-- The lines of a text without their terminators, which are a newline or a carriage return and a
newline. A final terminator starts no further line, and a final carriage return is part of its
line. -/
def lines : List Char → List (List Char)
  | [] => []
  | '\n' :: rest => [] :: lines rest
  | '\r' :: '\n' :: rest => [] :: lines rest
  | c :: rest =>
    match lines rest with
    | [] => [[c]]
    | line :: more => (c :: line) :: more

namespace Source

/-- A source from a text in memory. -/
def ofString (name text : String) : Source :=
  ⟨name, text.toList⟩

/-- The place at a byte offset; offsets beyond the end give the place at the end. -/
def position (source : Source) (offset : Nat) : Position :=
  .after (charsWithin offset source.text)

/-- The content of a line, counted from one. Lines out of range are empty, and line zero is read as
line one. -/
def line (source : Source) (number : Nat) : List Char :=
  (lines source.text).getD (number - 1) []

end Source

namespace Span

/-- Where a span starts. -/
def startIn (span : Span) (source : Source) : Position :=
  source.position span.start

/-- Where a span ends; the character there is no part of it. -/
def stopIn (span : Span) (source : Source) : Position :=
  source.position span.stop

/-- The text that a span covers. -/
def lexemeIn (span : Span) (source : Source) : List Char :=
  charsWithin (span.stop - span.start) (charsBeyond span.start source.text)

/-- `name:line:column` of the start. -/
def renderIn (span : Span) (source : Source) : String :=
  s!"{source.name}:{(span.startIn source).render}"

end Span

end Stacklet
