import Stacklet.Number.Binary64

/-! # Shortest decimals

The text of a number has the fewest significant digits that still read back as the number, and of
those the nearest; its sign stands before them. All comparisons are between integers: a number and
the ends of the interval that rounds to it are counted in quarters of the least positive number,
scaled by a power of ten.
-/

namespace Stacklet

/-- A decimal number `digits * 10 ^ exponent`. -/
structure Decimal where
  digits : Nat
  exponent : Int
deriving DecidableEq, Repr

namespace Decimal

/-- Positional notation, without exponent or superfluous zeros. -/
def render (decimal : Decimal) : String :=
  let digits := Nat.toDigits 10 decimal.digits
  match decimal.exponent with
  | .ofNat zeros => String.ofList (digits ++ List.replicate zeros '0')
  | .negSucc places =>
    let padded := List.replicate (places + 2 - digits.length) '0' ++ digits
    let point := padded.length - (places + 1)
    String.ofList (padded.take point ++ '.' :: padded.drop point)

end Decimal

namespace Binary64

/-- The reals that round to a number, counted in quarters of the least positive number, and whether
the ends belong to them. Below a power of two the neighbour is half as far. -/
structure Interval where
  low : Nat
  high : Nat
  closed : Bool

/-- The interval that rounds to a number without its sign, which is not zero. -/
def interval (number : Binary64) : Interval :=
  let gap := Nat.pow 2 number.scale
  let below := if number.significand = hiddenBit ∧ 0 < number.scale then gap else 2 * gap
  { low := 4 * number.units - below
    high := 4 * number.units + 2 * gap
    closed := number.significand % 2 = 0 }

/-- Whether `point / scale` lies in an interval. -/
def Interval.contains (interval : Interval) (scale point : Nat) : Bool :=
  if interval.closed then interval.low * scale ≤ point && point ≤ interval.high * scale
  else interval.low * scale < point && point < interval.high * scale

/-- The multiple of `10 ^ exponent` that is nearest to a positive number among those that round to
it, if there is one; of two equally near the greater. -/
def onGrid? (number : Binary64) (exponent : Int) : Option Decimal :=
  let up := Nat.pow 10 exponent.toNat
  let scale := Nat.pow 10 (-exponent).toNat
  let step := 4 * unitsPerOne * up
  let value := 4 * number.units * scale
  let below := value / step
  let lower := number.interval.contains scale (below * step)
  let upper := number.interval.contains scale ((below + 1) * step)
  let nearerUpper := (below + 1) * step - value ≤ value - below * step
  if upper && (!lower || nearerUpper) then some ⟨below + 1, exponent⟩
  else if lower then some ⟨below, exponent⟩
  else none

/-- The coarsest decimal grid on which a positive number can be written, from `exponent` on
downwards. -/
def coarsest (number : Binary64) : (fuel : Nat) → (exponent : Int) → Decimal
  | 0, exponent => (number.onGrid? exponent).getD ⟨0, 0⟩
  | fuel + 1, exponent =>
    match number.onGrid? exponent with
    | some decimal => decimal
    | none => number.coarsest fuel (exponent - 1)

/-- The decimal with the fewest digits that reads back as the number without its sign. The search
starts at a power of ten above the number and ends at the latest at `10 ^ -324`. -/
def shortest (number : Binary64) : Decimal :=
  if number.magnitude = 0 then ⟨0, 0⟩
  else
    let top := (Nat.toDigits 10 (number.units / unitsPerOne)).length
    number.coarsest (top + 324) top

/-- The text of a number. -/
def render (number : Binary64) : String :=
  let sign := if number.isNegative then "-" else ""
  if number.isFinite then sign ++ number.shortest.render
  else if number.magnitude = infinity then sign ++ "inf"
  else "NaN"

/-- The sixteen hexadecimal digits of the bits. -/
def renderBits (number : Binary64) : String :=
  let digits := Nat.toDigits 16 number.bits.toNat
  String.ofList (List.replicate (16 - digits.length) '0' ++ digits)

end Binary64

end Stacklet
