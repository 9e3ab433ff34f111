import Stacklet.Assembly.Template

/-! # A machine that executes assembly

The machine has the registers, the flags that jumps look at, a stack of quadwords without a bound,
and the numbers printed so far. The routine that prints a number is one step of it and may leave
anything in registers and flags. What the machine does not know (memory, the stack pointer as a
value, constants too wide for their instruction) it cannot execute.
-/

namespace Stacklet.Assembly

/-- The flags that operations leave behind. -/
structure Flags where
  zero : Bool
  carry : Bool
deriving DecidableEq, Repr

/-- What an operation on words leaves in its destination, and the flags then. A shift looks at as many
bits of its count as the width needs, and at five at least. -/
def Operation.result {width : Nat} (flags : Flags) (destination source : BitVec width) :
    Operation → BitVec width × Flags
  | mov => (source, flags)
  | add =>
    let sum := destination + source
    (sum, ⟨sum = 0, sum < destination⟩)
  | sub => (destination - source, ⟨destination = source, destination < source⟩)
  | xor => (destination ^^^ source, ⟨destination = source, false⟩)
  | shr =>
    let count := source.toNat % max 32 width
    let shifted := destination >>> count
    if count = 0 then (destination, flags)
    else (shifted, ⟨shifted = 0, destination.getLsbD (count - 1)⟩)
  | cmp => (destination, ⟨destination = source, destination < source⟩)
  | test => (destination, ⟨destination &&& source = 0, false⟩)
  | cmove => (if flags.zero then source else destination, flags)

/-- Whether a constant fits into 32 bits with a sign, as most instructions have them. -/
def isImmediate (constant : Int) : Bool :=
  -0x80000000 ≤ constant && constant < 0x80000000

/-- Whether an operation can have a constant as its source. A move takes a whole quadword. -/
def Operation.takes (constant : Int) : Operation → Bool
  | mov => -0x8000000000000000 ≤ constant && constant < 0x8000000000000000
  | cmove => false
  | _ => isImmediate constant

/-- Whether a jump is taken. -/
def Condition.holds (flags : Flags) : Condition → Bool
  | always => true
  | zero => flags.zero
  | above => !flags.carry && !flags.zero

/-- The state of the machine. The top of the stack comes first, the output in order. -/
structure Machine where
  registers : Register → Cell
  flags : Flags
  stack : List Cell
  output : List Cell

namespace Machine

/-- The content of a register. The stack pointer is no value of this machine. -/
def read? (machine : Machine) : Register → Option Cell
  | .rsp => none
  | register => some (machine.registers register)

/-- Replaces the content of a register. -/
def write (machine : Machine) (register : Register) (value : Cell) : Machine :=
  { machine with
    registers := fun other => if other = register then value else machine.registers other }

/-- The value of a source of an operation. -/
def source? (machine : Machine) (operation : Operation) : Operand → Option Cell
  | .register register => machine.read? register
  | .constant constant =>
    if operation.takes constant then some (BitVec.ofInt 64 constant) else none
  | .memory _ => none

/-- The value that an operand pushes. -/
def pushed? (machine : Machine) : Operand → Option Cell
  | .register register => machine.read? register
  | .constant constant => if isImmediate constant then some (BitVec.ofInt 64 constant) else none
  | .memory _ => none

/-- Executes an instruction that goes on to the next one. The routine that prints a number leaves
in registers and flags what `clobber` says. -/
def execute? (clobber : Machine → (Register → Cell) × Flags) (machine : Machine) :
    Code → Option Machine
  | .operate operation .quad (.register destination) source => do
    let old ← machine.read? destination
    let operand ← machine.source? operation source
    let (new, flags) := operation.result machine.flags old operand
    return { machine.write destination new with flags }
  | .push source => do
    let value ← machine.pushed? source
    return { machine with stack := value :: machine.stack }
  | .pop .rsp => none
  | .pop destination =>
    match machine.stack with
    | [] => none
    | value :: stack => some { machine.write destination value with stack }
  | .call .dump =>
    let (registers, flags) := clobber machine
    some ⟨registers, flags, machine.stack, machine.output ++ [machine.registers .rdi]⟩
  | _ => none

end Machine

/-- The lines behind a label. -/
def behind (place : Label) : List Line → Option (List Line)
  | [] => none
  | .label other :: rest => if other = place then some rest else behind place rest
  | _ :: rest => behind place rest

/-- A machine before the lines that it is to execute next. -/
structure Config where
  ahead : List Line
  machine : Machine

/-- One line of a program. A line without an instruction is passed, and the machine stops where it
cannot execute the instruction. -/
def Config.step? (clobber : Machine → (Register → Cell) × Flags) (program : List Line)
    (config : Config) : Option Config :=
  match config.ahead with
  | [] => none
  | .code (.jump condition target) :: rest =>
    if condition.holds config.machine.flags then
      (behind target program).map (⟨·, config.machine⟩)
    else some ⟨rest, config.machine⟩
  | .code code :: rest => (config.machine.execute? clobber code).map (⟨rest, ·⟩)
  | _ :: rest => some ⟨rest, config.machine⟩

/-- A machine before a call to the operating system that ends the process with a code. -/
def Config.Exits (config : Config) (code : Cell) : Prop :=
  config.ahead = [.code .syscall] ∧ config.machine.registers .rax = 60 ∧
    config.machine.registers .rdi = code

/-- Steps of a program during which the given values stay where they are at the bottom of the
stack. -/
inductive Steps (clobber : Machine → (Register → Cell) × Flags) (program : List Line)
    (below : List Cell) : Config → Config → Prop
  | refl {config : Config} (h : below <:+ config.machine.stack) :
      Steps clobber program below config config
  | head {config middle final : Config} (h : below <:+ config.machine.stack)
      (hstep : config.step? clobber program = some middle)
      (hrest : Steps clobber program below middle final) :
      Steps clobber program below config final

theorem Steps.trans {clobber : Machine → (Register → Cell) × Flags} {program : List Line}
    {below : List Cell} {first middle last : Config}
    (h : Steps clobber program below first middle) (h' : Steps clobber program below middle last) :
    Steps clobber program below first last := by
  induction h with
  | refl _ => exact h'
  | head h hstep _ ih => exact .head h hstep (ih h')

end Stacklet.Assembly
