import Stacklet.Assembly.Template
import Stacklet.Tree

/-! # Assembly of trees

Code can be made of printing, blocks and conditionals over integers. The walk over a tree yields a
line after the other, and a fault in the place of everything it cannot make code of; what is
written ends at the first fault. Labels are numbered in the order in which conditionals begin: the
first of a conditional is behind all of it, the second, if it has two arms, before the other arm.
-/

namespace Stacklet

/-- Why code cannot be made, or not be written. -/
inductive EmitError where
  | unsupported (construct : String) (span : Option Span)
  | unsupportedOperator (op : Located BinaryOp)
  | unsupportedLiteral (value : Literal) (span : Option Span)
  /-- The text did not fit where it was to be written. -/
  | outOfSpace
deriving DecidableEq, Repr

namespace EmitError

/-- What is said about the error. -/
def message : EmitError → String
  | unsupported construct _ => s!"Unsupported construct: {construct}"
  | unsupportedOperator op => s!"Unsupported operator `{op.value.text}`"
  | unsupportedLiteral value _ =>
    s!"Unsupported literal `{value.render}`, only integers and booleans are allowed"
  | outOfSpace => "I/O error: failed to write whole buffer"

/-- The place that the error is about. -/
def span? : EmitError → Option Span
  | unsupported _ span => span
  | unsupportedOperator op => some op.span
  | unsupportedLiteral _ span => span
  | outOfSpace => none

end EmitError

/-- The value of a constant on the stack machine. -/
def Literal.cell? : Literal → Option Cell
  | .number value =>
    value.toInt?.bind fun n =>
      if -0x8000000000000000 ≤ n ∧ n < 0x8000000000000000 then some (BitVec.ofInt 64 n) else none
  | .bool true => some 1
  | .bool false => some 0
  | _ => none

namespace Assembly

/-- A line, or a fault where one would be. -/
abbrev Step := Except EmitError Line

/-- A template before further steps. -/
def write (template : List Line) (rest : List Step) : List Step :=
  template.map .ok ++ rest

/-- The template of an operator. -/
def operator? : BinaryOp → Option (List Line)
  | .add => some plus
  | .sub => some minus
  | .equal => some equal
  | .notEqual => some notEqual
  | _ => none

/-- The steps of an expression before further steps. An operator is looked at before its operands,
and its template follows them. -/
def ofExpr : Expr → (rest : List Step) → List Step
  | .literal value span, rest =>
    match value.cell? with
    | some cell => write (push cell) rest
    | none => .error (.unsupportedLiteral value span) :: rest
  | .binary left op right, rest =>
    match operator? op.value with
    | some template => ofExpr left (ofExpr right (write template rest))
    | none => .error (.unsupportedOperator op) :: rest
  | expr, rest => .error (.unsupported expr.construct expr.span?) :: rest

mutual

/-- How many labels a statement uses. -/
def labels : Stmt → Nat
  | .block body => labelsOf body
  | .ifThen _ thenBranch => 1 + labels thenBranch
  | .ifElse _ thenBranch elseBranch => 2 + labels thenBranch + labels elseBranch
  | _ => 0

/-- How many labels statements use. -/
def labelsOf : List Stmt → Nat
  | [] => 0
  | stmt :: rest => labels stmt + labelsOf rest

end

mutual

/-- The steps of a statement before further steps, with labels from a number on. -/
def ofStmt (number : Nat) : Stmt → (rest : List Step) → List Step
  | .print expr, rest => ofExpr expr (write dump rest)
  | .block body, rest => ofStmts number body rest
  | .ifThen condition thenBranch, rest =>
    let join := Label.branch number
    ofExpr condition <| write (jumpIfZero join) <|
      ofStmt (number + 1) thenBranch <| write [.label join] rest
  | .ifElse condition thenBranch elseBranch, rest =>
    let join := Label.branch number
    let alternate := Label.branch (number + 1)
    ofExpr condition <| write (jumpIfZero alternate) <|
      ofStmt (number + 2) thenBranch <| write (otherwise join alternate) <|
      ofStmt (number + 2 + labels thenBranch) elseBranch <| write [.label join] rest
  | stmt, rest => .error (.unsupported stmt.construct stmt.span?) :: rest

/-- The steps of statements before further steps, with labels from a number on. -/
def ofStmts (number : Nat) : List Stmt → (rest : List Step) → List Step
  | [], rest => rest
  | stmt :: more, rest => ofStmt number stmt (ofStmts (number + labels stmt) more rest)

end

/-- What was written, and the fault that ended it early. -/
structure Emission where
  lines : List Line
  fault : Option EmitError
deriving DecidableEq, Repr

/-- The fault that a step is. -/
def Step.fault? : Step → Option EmitError
  | .error fault => some fault
  | .ok _ => none

/-- Writes steps up to the first fault. -/
def Emission.ofSteps (steps : List Step) : Emission where
  lines := (steps.takeWhile Except.isOk).filterMap Except.toOption
  fault := steps.findSome? Step.fault?

/-- The whole program of a list of statements. -/
def ofTree (statements : List Stmt) : Emission :=
  .ofSteps (write prologue (ofStmts 0 statements (write epilogue [])))

/-- The text of an emission. -/
def Emission.text (emission : Emission) : String :=
  render emission.lines

end Assembly

end Stacklet
