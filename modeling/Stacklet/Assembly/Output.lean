import Stacklet.Assembly.OfTree
import Stacklet.Assembly.OfWords

/-! # Output

A program is written template by template while its tree is walked or its words are gone through. An
output may have room for so many bytes only. Of a template that does not fit, the beginning that
fits is written, and nothing is written after it.
-/

namespace Stacklet.Assembly

/-- What has been written, and how many more bytes can be; any number if nothing is said. -/
structure Output where
  written : ByteArray
  room : Option Nat

/-- Writing to an output, which a fault ends. What was written by then stays. -/
abbrev Emit := EStateM EmitError Output

/-- Writing with a number for the next label. -/
abbrev Walk := StateT Nat Emit

/-- Writes a text, or what there is room for. -/
def put (text : String) : Emit Unit := fun ⟨written, room⟩ =>
  let bytes := text.toUTF8
  match room with
  | none => .ok () ⟨written ++ bytes, none⟩
  | some room =>
    if bytes.size ≤ room then .ok () ⟨written ++ bytes, some (room - bytes.size)⟩
    else .error .outOfSpace ⟨written ++ bytes.extract 0 room, some 0⟩

/-- Writes a template. -/
def putLines (template : List Line) : Emit Unit :=
  put (render template)

/-- Writes what every program begins with. -/
def putPrologue : Emit Unit := do
  putLines [.format]
  putLines [.segment]
  putLines dumpRoutine
  putLines [.entry .main, .label .main]

/-! ## Trees -/

/-- Writes an expression. -/
def emitExpr : Expr → Emit Unit
  | .literal value span =>
    match value.cell? with
    | some cell => putLines (push cell)
    | none => throw (.unsupportedLiteral value span)
  | .binary left op right =>
    match operator? op.value with
    | some template => do
      emitExpr left
      emitExpr right
      putLines template
    | none => throw (.unsupportedOperator op)
  | expr => throw (.unsupported expr.construct expr.span?)

/-- Reserves labels and yields the number of the first one. -/
def takeLabels (count : Nat) : Walk Nat :=
  modifyGet fun number => (number, number + count)

mutual

/-- Writes a statement. -/
def emitStmt : Stmt → Walk Unit
  | .print expr => do
    emitExpr expr
    putLines dump
  | .block body => emitStmts body
  | .ifThen condition thenBranch => do
    let number ← takeLabels 1
    let join := Label.branch number
    emitExpr condition
    putLines (jumpIfZero join)
    emitStmt thenBranch
    putLines [.label join]
  | .ifElse condition thenBranch elseBranch => do
    let number ← takeLabels 2
    let join := Label.branch number
    let alternate := Label.branch (number + 1)
    emitExpr condition
    putLines (jumpIfZero alternate)
    emitStmt thenBranch
    putLines (otherwise join alternate)
    emitStmt elseBranch
    putLines [.label join]
  | stmt => throw (.unsupported stmt.construct stmt.span?)

/-- Writes statements one after the other. -/
def emitStmts : List Stmt → Walk Unit
  | [] => pure ()
  | stmt :: more => do
    emitStmt stmt
    emitStmts more

end

/-- Writes the whole program of a list of statements. -/
def emitTree (statements : List Stmt) : Emit Unit := do
  putPrologue
  (emitStmts statements).run' 0
  putLines epilogue

/-! ## Words -/

/-- Writes instructions of which the first has the given index. -/
def emitInstructions (index : Nat) : List (Instruction Nat) → Emit Unit
  | [] => pure ()
  | instruction :: rest => do
    putLines (ofInstruction index instruction)
    emitInstructions (index + 1) rest

/-- Writes the whole program of linked instructions. -/
def emitWords (instructions : List (Located (Instruction Nat))) : Emit Unit := do
  putPrologue
  emitInstructions 0 (instructions.map (·.value))
  putLines epilogue

/-! ## What is emitted -/

/-- The bytes that are written, and the fault that ended the writing. -/
structure Emitted where
  bytes : ByteArray
  fault : Option EmitError

/-- Writes to an empty output with room for so many bytes. -/
def emitted (room : Option Nat) (emit : Emit Unit) : Emitted :=
  match emit ⟨.empty, room⟩ with
  | .ok _ output => ⟨output.written, none⟩
  | .error fault output => ⟨output.written, some fault⟩

end Stacklet.Assembly
