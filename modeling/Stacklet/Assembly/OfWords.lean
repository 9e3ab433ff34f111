import Stacklet.Assembly.Template
import Stacklet.Word.Blocks

/-! # Assembly of words

Linked instructions become templates one by one. The closer of a block at an index defines the label
behind it, which is where the opener jumps.
-/

namespace Stacklet.Assembly

/-- The lines of an instruction with an index. -/
def ofInstruction (index : Nat) : Instruction Nat → List Line
  | .push value => push value
  | .plus => plus
  | .minus => minus
  | .equal => equal
  | .dump => dump
  | .cond target => jumpIfZero (.addr target)
  | .alt target => otherwise (.addr target) (.addr (index + 1))
  | .close => [.label (.addr (index + 1))]

/-- The lines of instructions of which the first has the given index. -/
def ofInstructions (index : Nat) : List (Instruction Nat) → List Line
  | [] => []
  | instruction :: rest => ofInstruction index instruction ++ ofInstructions (index + 1) rest

/-- The whole program of linked instructions. -/
def ofWords (instructions : List (Located (Instruction Nat))) : List Line :=
  prologue ++ ofInstructions 0 (instructions.map (·.value)) ++ epilogue

end Stacklet.Assembly
