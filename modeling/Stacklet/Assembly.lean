import Stacklet.Word

/-! # Assembly

Programs for x86-64 Linux in the notation of the flat assembler, as lines with their instructions
rather than as text; the text is a rendering of the lines. The program is a stack machine on the
native stack: each value is a quadword, operators pop their operands and push their result.
-/

namespace Stacklet

namespace Assembly

/-- The registers that occur. -/
inductive Register where
  | rax
  | rbx
  | rcx
  | rdx
  | rsi
  | rdi
  | rsp
  | r8
deriving DecidableEq, Repr

/-- How much of an operand is meant. -/
inductive Width where
  | byte
  | double
  | quad
deriving DecidableEq, Repr

/-- The name of the low part of a register. -/
def Register.name : Width → Register → String
  | .quad, rax => "rax"
  | .quad, rbx => "rbx"
  | .quad, rcx => "rcx"
  | .quad, rdx => "rdx"
  | .quad, rsi => "rsi"
  | .quad, rdi => "rdi"
  | .quad, rsp => "rsp"
  | .quad, r8 => "r8"
  | .double, rax => "eax"
  | .double, rbx => "ebx"
  | .double, rcx => "ecx"
  | .double, rdx => "edx"
  | .double, rsi => "esi"
  | .double, rdi => "edi"
  | .double, rsp => "esp"
  | .double, r8 => "r8d"
  | .byte, rax => "al"
  | .byte, rbx => "bl"
  | .byte, rcx => "cl"
  | .byte, rdx => "dl"
  | .byte, rsi => "sil"
  | .byte, rdi => "dil"
  | .byte, rsp => "spl"
  | .byte, r8 => "r8b"

/-- What is written before a place in memory. -/
def Width.name : Width → String
  | byte => "BYTE"
  | double => "DWORD"
  | quad => "QWORD"

/-- Places that code can go to. -/
inductive Label where
  /-- The place before the instruction with an index. -/
  | addr (index : Nat)
  /-- A place counted in the order in which conditional statements begin. -/
  | branch (number : Nat)
  /-- The routine that prints a number. -/
  | dump
  /-- The loop of the routine that prints a number. -/
  | digits
  /-- Where the program starts. -/
  | main
deriving DecidableEq, Repr

/-- The name of a label. -/
def Label.name : Label → String
  | addr index => s!"addr_{index}"
  | branch number => s!"branch_{number}"
  | dump => "dump"
  | digits => ".L2"
  | main => "main"

/-- An address in memory. -/
inductive Address where
  | offset (base : Register) (displacement : Nat)
  | scaled (base index : Register) (factor : Nat)
deriving DecidableEq, Repr

/-- How an address is written. -/
def Address.render : Address → String
  | offset base displacement => s!"[{base.name .quad}+{displacement}]"
  | scaled base index factor => s!"[{base.name .quad}+{index.name .quad}*{factor}]"

/-- What an instruction works on. -/
inductive Operand where
  | register (named : Register)
  | constant (value : Int)
  | memory (address : Address)
deriving DecidableEq, Repr

instance : Coe Register Operand := ⟨.register⟩

/-- How an operand of a width is written. -/
def Operand.render (width : Width) : Operand → String
  | register named => named.name width
  | constant value => toString value
  | memory address => s!"{width.name} {address.render}"

/-- Operations with two operands, of which the first is the destination. -/
inductive Operation where
  | mov
  | add
  | sub
  | xor
  | shr
  | cmp
  | test
  /-- Moves if the last comparison found equality. -/
  | cmove
deriving DecidableEq, Repr

/-- The name of an operation. -/
def Operation.name : Operation → String
  | mov => "mov"
  | add => "add"
  | sub => "sub"
  | xor => "xor"
  | shr => "shr"
  | cmp => "cmp"
  | test => "test"
  | cmove => "cmove"

/-- When a jump is taken. -/
inductive Condition where
  | always
  | zero
  | above
deriving DecidableEq, Repr

/-- The name of a jump. -/
def Condition.name : Condition → String
  | always => "jmp"
  | zero => "jz"
  | above => "ja"

/-- Instructions of the processor. -/
inductive Code where
  | operate (operation : Operation) (width : Width) (destination source : Operand)
  /-- Loads an address. -/
  | lea (destination : Register) (address : Address)
  /-- Multiplies `rax`, with the high half of the product in `rdx`. -/
  | mul (source : Register)
  | push (source : Operand)
  | pop (destination : Register)
  | jump (condition : Condition) (target : Label)
  | call (target : Label)
  | ret
  | syscall
deriving DecidableEq, Repr

/-- A mnemonic in its column, and what follows it. -/
def column (mnemonic operands : String) : String :=
  mnemonic ++ String.ofList (List.replicate (7 - mnemonic.length) ' ') ++ operands

/-- How an instruction is written. -/
def Code.render : Code → String
  | operate operation width destination source =>
    column operation.name s!"{destination.render width}, {source.render width}"
  | lea destination address => column "lea" s!"{destination.name .quad}, {address.render}"
  | mul source => column "mul" (source.name .quad)
  | push source => column "push" (source.render .quad)
  | pop destination => column "pop" (destination.name .quad)
  | jump condition target => column condition.name target.name
  | call target => column "call" target.name
  | ret => "ret"
  | syscall => "syscall"

/-- Lines of a program. -/
inductive Line where
  /-- The kind of file to make. -/
  | format
  /-- The one segment of the program. -/
  | segment
  /-- Where the program starts. -/
  | entry (start : Label)
  /-- A comment over a few instructions. -/
  | title (text : String)
  | label (place : Label)
  | code (instruction : Code)
deriving DecidableEq, Repr

/-- How a line is written, with its end. -/
def Line.render : Line → String
  | format => "format ELF64 executable\n"
  | segment => "segment readable executable\n"
  | entry start => s!"entry {start.name}\n"
  | title text => s!";; -- {text} --\n"
  | label place => s!"{place.name}:\n"
  | code instruction => s!"    {instruction.render}\n"

/-- The text of a program. -/
def render (lines : List Line) : String :=
  String.join (lines.map Line.render)

end Assembly

end Stacklet
