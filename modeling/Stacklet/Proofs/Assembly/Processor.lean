import Mathlib.Algebra.Group.Int.Defs
import Mathlib.Algebra.Group.Nat.Defs
import Stacklet.Proofs.Assembly.Machine

/-! # A processor with memory

The routine that prints a number works on bytes: it has a frame on the stack, stores digits there
and hands them to the operating system. The processor here has the registers, the flags and a memory
of bytes, and remembers where it stored something and what it was asked to write. It knows what the
routine needs, and everything else it cannot execute.
-/

namespace Stacklet.Assembly

/-- Whether an operation leaves something in its destination. -/
def Operation.assigns : Operation → Bool
  | cmp | test => false
  | _ => true

/-- The bytes from an address on. -/
def bytesAt (memory : Cell → BitVec 8) (address : Cell) : (count : Nat) → List (BitVec 8)
  | 0 => []
  | count + 1 => memory address :: bytesAt memory (address + 1) count

/-- The number that bytes spell, the least significant first. -/
def littleEndian : List (BitVec 8) → Nat
  | [] => 0
  | byte :: rest => byte.toNat + 256 * littleEndian rest

/-- The quadword at an address. -/
def quadAt (memory : Cell → BitVec 8) (address : Cell) : Cell :=
  BitVec.ofNat 64 (littleEndian (bytesAt memory address 8))

/-- Bytes that were given to the operating system, and the file that they are for. -/
structure Transfer where
  descriptor : Cell
  bytes : List (BitVec 8)
deriving DecidableEq

/-- The state of the processor, with the addresses of all stores and all transfers so far, the
latest first. -/
structure Processor where
  registers : Register → Cell
  flags : Flags
  memory : Cell → BitVec 8
  stores : List Cell
  transfers : List Transfer

/-- What the manuals leave open: a flag after a multiplication, and a register after a call to the
operating system. -/
structure Leeway where
  zeroAfterMul : Processor → Bool
  rcxAfterCall : Processor → Cell

namespace Processor

/-- Replaces the content of a register. -/
def write (processor : Processor) (register : Register) (value : Cell) : Processor :=
  { processor with
    registers := fun other => if other = register then value else processor.registers other }

/-- Replaces a byte of the memory. -/
def store (processor : Processor) (address : Cell) (value : BitVec 8) : Processor :=
  { processor with
    memory := fun other => if other = address then value else processor.memory other
    stores := address :: processor.stores }

/-- The address that an operand names. -/
def addressOf (processor : Processor) : Address → Cell
  | .offset base displacement => processor.registers base + BitVec.ofNat 64 displacement
  | .scaled base index factor =>
    processor.registers base + processor.registers index * BitVec.ofNat 64 factor

/-- The value of a source of an operation on quadwords. -/
def quadSource? (processor : Processor) (operation : Operation) : Operand → Option Cell
  | .register register => some (processor.registers register)
  | .constant constant =>
    if operation.takes constant then some (BitVec.ofInt 64 constant) else none
  | .memory _ => none

/-- The value of a source of an operation on the low part of a register. A constant has to fit, with
a sign or without. -/
def partSource? (width : Nat) (processor : Processor) : Operand → Option (BitVec width)
  | .register register => some ((processor.registers register).setWidth width)
  | .constant constant =>
    if -2 ^ (width - 1) ≤ constant ∧ constant < 2 ^ width then some (BitVec.ofInt width constant)
    else none
  | .memory _ => none

/-- Executes an instruction that goes on to the next one. An operation on a doubleword clears the
rest of the register. The only call to the operating system that is known is to write bytes, and it
writes all of them. -/
def execute? (leeway : Leeway) (processor : Processor) : Code → Option Processor
  | .operate operation .quad (.register destination) source => do
    let operand ← processor.quadSource? operation source
    let (new, flags) := operation.result processor.flags (processor.registers destination) operand
    let after := if operation.assigns then processor.write destination new else processor
    return { after with flags }
  | .operate operation .double (.register destination) source => do
    let operand ← processor.partSource? 32 source
    let (new, flags) :=
      operation.result processor.flags ((processor.registers destination).setWidth 32) operand
    let after :=
      if operation.assigns then processor.write destination (new.setWidth 64) else processor
    return { after with flags }
  | .operate .mov .byte (.memory address) source => do
    let operand ← processor.partSource? 8 source
    return processor.store (processor.addressOf address) operand
  | .lea destination address => some (processor.write destination (processor.addressOf address))
  | .mul source =>
    let product := (processor.registers .rax).toNat * (processor.registers source).toNat
    let high := BitVec.ofNat 64 (product / 2 ^ 64)
    let after := (processor.write .rax (BitVec.ofNat 64 product)).write .rdx high
    some { after with flags := ⟨leeway.zeroAfterMul processor, high ≠ 0⟩ }
  | .syscall =>
    if processor.registers .rax = 1 then
      let count := processor.registers .rdx
      let bytes := bytesAt processor.memory (processor.registers .rsi) count.toNat
      let after := (processor.write .rax count).write .rcx (leeway.rcxAfterCall processor)
      some { after with
        transfers := ⟨processor.registers .rdi, bytes⟩ :: processor.transfers }
    else none
  | _ => none

end Processor

/-- Where a routine is: before some of its lines, or back at the address that it returned to. -/
inductive Stage where
  | within (ahead : List Line)
  | returned (address : Cell)
deriving DecidableEq

/-- One line of a routine. Returning pops the address to go on at. -/
def Processor.step? (leeway : Leeway) (program : List Line) (processor : Processor) :
    Stage → Option (Stage × Processor)
  | .within (.code (.jump condition target) :: rest) =>
    if condition.holds processor.flags then
      (behind target program).map fun ahead => (.within ahead, processor)
    else some (.within rest, processor)
  | .within (.code .ret :: _) =>
    let top := processor.registers .rsp
    some (.returned (quadAt processor.memory top), processor.write .rsp (top + 8))
  | .within (.code code :: rest) => (processor.execute? leeway code).map (.within rest, ·)
  | .within (_ :: rest) => some (.within rest, processor)
  | _ => none

/-- A run of a routine that comes to the start of a loop a number of times. -/
inductive Rounds (leeway : Leeway) (program loop : List Line) :
    Nat → Stage × Processor → Stage × Processor → Prop
  | refl {final : Stage × Processor} : Rounds leeway program loop 0 final final
  | pass {count : Nat} {stage : Stage} {processor : Processor} {middle final : Stage × Processor}
      (h : stage ≠ .within loop) (hstep : processor.step? leeway program stage = some middle)
      (hrest : Rounds leeway program loop count middle final) :
      Rounds leeway program loop count (stage, processor) final
  | enter {count : Nat} {processor : Processor} {middle final : Stage × Processor}
      (hstep : processor.step? leeway program (.within loop) = some middle)
      (hrest : Rounds leeway program loop count middle final) :
      Rounds leeway program loop (count + 1) (.within loop, processor) final

variable {leeway : Leeway} {program loop : List Line}

theorem Rounds.trans {first second : Nat} {start middle final : Stage × Processor}
    (h : Rounds leeway program loop first start middle)
    (h' : Rounds leeway program loop second middle final) :
    Rounds leeway program loop (first + second) start final := by
  induction h with
  | refl => rwa [Nat.zero_add]
  | pass hne hstep _ ih => exact .pass hne hstep (ih h')
  | enter hstep _ ih =>
      rw [Nat.add_right_comm]
      exact .enter hstep (ih h')

/-! ## Straight code -/

namespace Processor

/-- Executes instructions in a row. -/
def executeAll? (leeway : Leeway) : List Code → Processor → Option Processor
  | [], processor => some processor
  | code :: rest, processor => processor.execute? leeway code >>= executeAll? leeway rest

/-- Instructions in a row are executed line by line, away from the start of a loop. -/
theorem rounds_of_executeAll? {codes : List Code} {rest : List Line} {processor after : Processor}
    (h : processor.executeAll? leeway codes = some after)
    (hloop : loop.length ≤ rest.length ∨ codes.length + rest.length < loop.length) :
    Rounds leeway program loop 0 (.within (codes.map .code ++ rest), processor)
      (.within rest, after) := by
  induction codes generalizing processor with
  | nil =>
      cases h
      exact .refl
  | cons code codes ih =>
      obtain ⟨middle, hcode, hcodes⟩ := Option.bind_eq_some_iff.mp h
      simp only [List.length_cons] at hloop
      refine .pass ?_ ?_ (ih hcodes (by omega))
      · intro hstage
        have hlength := congrArg List.length (Stage.within.inj hstage)
        simp only [List.length_append, List.length_map, List.length_cons] at hlength
        omega
      · -- Jumps and returns are no instructions that go on to the next one.
        cases code with
        | jump condition target => exact nomatch hcode
        | ret => exact nomatch hcode
        | _ => simp only [List.map_cons, List.cons_append, step?, hcode, Option.map_some]

end Processor

end Stacklet.Assembly
