/-! # Numbers of the source language

Numbers are binary64 numbers, kept as their bits. A number literal denotes the number nearest to its
decimal value, the even one of two equally near. Literals have no sign, so what is read is
nonnegative and finite; there the integer that the bits spell orders numbers by value.
-/

namespace Stacklet

/-- A binary64 number, given by its bits: a sign, and a magnitude below the bits of infinity unless
it is not finite. -/
structure Binary64 where
  bits : BitVec 64
deriving DecidableEq, Repr

/-- The integer nearest to `numerator / denominator`, the even one of two equally near. -/
def roundHalfEven (numerator denominator : Nat) : Nat :=
  let quotient := numerator / denominator
  let twice := 2 * (numerator % denominator)
  if twice < denominator then quotient
  else if denominator < twice then quotient + 1
  else quotient + quotient % 2

namespace Binary64

/-- The weight of the lowest exponent bit, `2 ^ 52`. It is also the hidden bit of a significand. -/
def hiddenBit : Nat := 0x10000000000000

/-- The number one, counted in units of the least positive number. -/
def unitsPerOne : Nat := Nat.pow 2 1074

/-- The magnitude of infinity. Anything beyond is no number at all. -/
def infinity : Nat := 0x7FF0000000000000

/-- Whether the sign is a minus. Zero has a sign, too. -/
def isNegative (number : Binary64) : Bool :=
  number.bits.msb

/-- The bits behind the sign. -/
def magnitude (number : Binary64) : Nat :=
  number.bits.toNat % 0x8000000000000000

/-- Whether a number is neither infinite nor no number. -/
def isFinite (number : Binary64) : Bool :=
  number.magnitude < infinity

/-- The scale of a number: its unit in the last place is `2 ^ (scale - 1074)`. -/
def scale (number : Binary64) : Nat :=
  number.magnitude / hiddenBit - 1

/-- The integer significand: without its sign the number is `significand * 2 ^ (scale - 1074)`. -/
def significand (number : Binary64) : Nat :=
  number.magnitude - number.scale * hiddenBit

/-- The number without its sign, counted in units of `2 ^ -1074`, the least positive number. -/
def units (number : Binary64) : Nat :=
  number.significand * Nat.pow 2 number.scale

/-- The number nearest to a quotient; nothing when that is beyond the greatest finite number.
A quotient that rounds up to the next power of two carries into the scale by itself. -/
def nearest? (numerator denominator : Nat) : Option Binary64 :=
  let fine := numerator * unitsPerOne
  let scale := (fine / denominator).log2 - 52
  let bits := scale * hiddenBit + roundHalfEven fine (denominator * Nat.pow 2 scale)
  if bits < infinity then some ⟨BitVec.ofNat 64 bits⟩ else none

/-- The integer that a number is, if it is one. -/
def toInt? (number : Binary64) : Option Int :=
  if number.isFinite ∧ number.units % unitsPerOne = 0 then
    let whole := Int.ofNat (number.units / unitsPerOne)
    some (if number.isNegative then -whole else whole)
  else none

end Binary64

/-- The value of a string of decimal digits. -/
def digitsValue (digits : List Char) : Nat :=
  digits.foldl (fun value digit => 10 * value + (digit.toNat - '0'.toNat)) 0

/-- The number that a literal with the given digits before and behind its point denotes. -/
def Binary64.ofDigits? (whole fraction : List Char) : Option Binary64 :=
  nearest? (digitsValue (whole ++ fraction)) (Nat.pow 10 fraction.length)

end Stacklet
