/-! # Patterns

Patterns of choices in command scripts: a star stands for any text, a question mark for any
character, and brackets for one of some characters. Quoting takes these meanings away.
-/

namespace Stacklet.Sandbox

/-- Units of a pattern. -/
inductive PatternUnit where
  | literal (c : Char)
  | anyChar
  | anyText
  /-- One character in, or outside, some ranges with both ends. -/
  | oneOf (inside : Bool) (ranges : List (Char × Char))
deriving DecidableEq, Repr

/-- Whether texts match a pattern. -/
abbrev Pattern := List PatternUnit

namespace Pattern

/-- A character and whether it was quoted. -/
abbrev Marked := Char × Bool

/-- Whether a marked character is a given one with its special meaning. -/
def isSign (sign : Char) (c : Marked) : Bool :=
  c = (sign, false)

/-- The ranges between brackets. -/
def ranges : List Marked → List (Char × Char)
  | low :: ('-', false) :: high :: rest => (low.1, high.1) :: ranges rest
  | c :: rest => (c.1, c.1) :: ranges rest
  | [] => []

/-- The unit between brackets, and what is behind them. A closing bracket that comes first is one of
the characters. -/
def bracket? (text : List Marked) : Option (PatternUnit × List Marked) :=
  let outside := text.head?.any (isSign '!')
  let text := if outside then text.drop 1 else text
  let inner := text.take 1 ++ (text.drop 1).takeWhile (!isSign ']' ·)
  match text.drop inner.length with
  | _ :: behind => some (.oneOf (!outside) (ranges inner), behind)
  | [] => none

/-- The pattern that a marked text is, in at most `fuel` units. -/
def ofMarked : (fuel : Nat) → List Marked → Pattern
  | 0, _ | _, [] => []
  | fuel + 1, c :: rest =>
    match c, bracket? rest with
    | ('*', false), _ => .anyText :: ofMarked fuel rest
    | ('?', false), _ => .anyChar :: ofMarked fuel rest
    | ('[', false), some (unit, behind) => unit :: ofMarked fuel behind
    | (c, _), _ => .literal c :: ofMarked fuel rest

/-- Whether a text matches a pattern from its start to its end. -/
def accepts : Pattern → List Char → Bool
  | [], text => text.isEmpty
  | .anyText :: rest, text =>
    (List.range (text.length + 1)).any fun count => accepts rest (text.drop count)
  | .anyChar :: rest, _ :: text => accepts rest text
  | .literal expected :: rest, c :: text => c = expected && accepts rest text
  | .oneOf inside ranges :: rest, c :: text =>
    (ranges.any fun (low, high) => low ≤ c && c ≤ high) == inside && accepts rest text
  | _ :: _, [] => false

end Pattern

end Stacklet.Sandbox
