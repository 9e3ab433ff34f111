import Mathlib.Data.Rat.Lemmas
import Stacklet.Assembly.OfTree
import Stacklet.Proofs.Number.Rounding

/-! # What trees mean

Expressions over integers have values, computed in 64 bits, and statements over them print some.
Nothing here mentions stacks or code: this is what the code made of a tree is measured against.
-/

namespace Stacklet

/-- A finite number as a fraction. -/
def Binary64.toRat (number : Binary64) : Rat :=
  let distance : Rat := number.units / Binary64.unitsPerOne
  if number.isNegative then -distance else distance

/-- The integer that a constant stands for, if it is one. Truth is one and falsehood zero. -/
def Literal.integer? : Literal → Option Int
  | .number value =>
    if value.isFinite ∧ value.toRat.den = 1 then some value.toRat.num else none
  | .bool value => some (if value then 1 else 0)
  | _ => none

/-- The result of an operator. -/
def BinaryOp.apply? (left right : Cell) : BinaryOp → Option Cell
  | .add => some (left + right)
  | .sub => some (left - right)
  | .equal => some (if left = right then 1 else 0)
  | .notEqual => some (if left = right then 0 else 1)
  | _ => none

/-- The value of an expression. -/
def Expr.value? : Expr → Option Cell
  | .literal value _ => value.integer?.map (BitVec.ofInt 64)
  | .binary left op right => do op.value.apply? (← left.value?) (← right.value?)
  | _ => none

mutual

/-- The numbers that a statement prints. Of a conditional only the arm that is executed counts. -/
def Stmt.printed? : Stmt → Option (List Cell)
  | .print expr => expr.value?.map ([·])
  | .block body => printedBy? body
  | .ifThen condition thenBranch => do
    if (← condition.value?) = 0 then some [] else thenBranch.printed?
  | .ifElse condition thenBranch elseBranch => do
    if (← condition.value?) = 0 then elseBranch.printed? else thenBranch.printed?
  | _ => none

/-- The numbers that statements print, one statement after the other. -/
def printedBy? : List Stmt → Option (List Cell)
  | [] => some []
  | stmt :: rest => do return (← stmt.printed?) ++ (← printedBy? rest)

end

theorem Binary64.toInt?_eq_some {number : Binary64} {value : Int}
    (h : number.toInt? = some value) : number.isFinite ∧ number.toRat = value := by
  unfold Binary64.toInt? at h
  split at h
  next hwhole =>
    cases h
    have hone : (Binary64.unitsPerOne : Rat) ≠ 0 :=
      Nat.cast_ne_zero.mpr Binary64.unitsPerOne_pos.ne'
    have hdistance : (number.units : Rat) / Binary64.unitsPerOne =
        (number.units / Binary64.unitsPerOne : Nat) := by
      rw [div_eq_iff hone, ← Nat.cast_mul, Nat.div_mul_cancel (Nat.dvd_of_mod_eq_zero hwhole.2)]
    refine ⟨hwhole.1, ?_⟩
    rw [Binary64.toRat, hdistance, Int.ofNat_eq_natCast]
    split
    · rw [Int.cast_neg, Int.cast_natCast]
    · rw [Int.cast_natCast]
  next => exact nomatch h

/-- A constant that code can be made of is an integer, and its cell holds it. -/
theorem Literal.integer?_of_cell? {value : Literal} {cell : Cell} (h : value.cell? = some cell) :
    value.integer?.map (BitVec.ofInt 64) = some cell := by
  unfold Literal.cell? at h
  split at h
  next number =>
    obtain ⟨n, hn, hcell⟩ := Option.bind_eq_some_iff.mp h
    obtain ⟨hfinite, hrat⟩ := Binary64.toInt?_eq_some hn
    split at hcell
    · cases hcell
      rw [Literal.integer?, hrat, Rat.den_intCast, if_pos ⟨hfinite, rfl⟩, Rat.num_intCast,
        Option.map_some]
    · exact nomatch hcell
  · cases h
    rfl
  · cases h
    rfl
  · exact nomatch h

/-- A number that is an integer is found to be one. -/
theorem Binary64.toInt?_of_den {number : Binary64} (hfinite : number.isFinite)
    (hden : number.toRat.den = 1) : number.toInt? = some number.toRat.num := by
  have hdvd : Binary64.unitsPerOne ∣ number.units := by
    rw [← Rat.den_div_natCast_eq_one_iff _ _ Binary64.unitsPerOne_pos.ne']
    rw [Binary64.toRat] at hden
    split at hden
    · rwa [Rat.den_neg_eq_den] at hden
    · exact hden
  have hwhole : number.toInt? = some _ := if_pos ⟨hfinite, Nat.mod_eq_zero_of_dvd hdvd⟩
  rw [hwhole, (Binary64.toInt?_eq_some hwhole).2, Rat.num_intCast]

/-- An integer that fits into a cell is held by one. -/
theorem Literal.cell?_of_integer? {value : Literal} {number : Int}
    (h : value.integer? = some number) (hleast : -0x8000000000000000 ≤ number)
    (hgreatest : number < 0x8000000000000000) : value.cell? = some (BitVec.ofInt 64 number) := by
  cases value with
  | number value =>
      rw [Literal.integer?, Option.ite_none_right_eq_some] at h
      obtain ⟨⟨hfinite, hden⟩, hnumber⟩ := h
      rw [Literal.cell?, Binary64.toInt?_of_den hfinite hden, hnumber, Option.bind_some,
        if_pos ⟨hleast, hgreatest⟩]
  | bool value =>
      cases value <;> cases h <;> rfl
  | _ => cases h

end Stacklet
