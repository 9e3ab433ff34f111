import Stacklet.Assembly

/-! # Templates

The lines that each instruction of the stack machine becomes, and the frame around a program. Both
front ends write with these and nothing else.
-/

namespace Stacklet.Assembly

open Register Code

/-- An operation on quadwords. -/
def quad (operation : Operation) (destination source : Operand) : Line :=
  .code (.operate operation .quad destination source)

/-- The routine that prints `rdi` as an unsigned decimal number and a newline. It divides by ten by
multiplying with a rounded inverse, and writes the digits from right to left into its frame. -/
def dumpRoutine : List Line :=
  [.title "dump",
    .label .dump,
    quad .mov r8 (.constant (-3689348814741910323)),
    quad .sub rsp (.constant 40),
    .code (.operate .mov .byte (.memory (.offset rsp 31)) (.constant 10)),
    .code (.lea rcx (.offset rsp 30)),
    .label .digits,
    quad .mov rax rdi,
    .code (.mul r8),
    quad .mov rax rdi,
    quad .shr rdx (.constant 3),
    .code (.lea rsi (.scaled rdx rdx 4)),
    quad .add rsi rsi,
    quad .sub rax rsi,
    quad .mov rsi rcx,
    quad .sub rcx (.constant 1),
    .code (.operate .add .double rax (.constant 48)),
    .code (.operate .mov .byte (.memory (.offset rcx 1)) rax),
    quad .mov rax rdi,
    quad .mov rdi rdx,
    quad .cmp rax (.constant 9),
    .code (.jump .above .digits),
    .code (.lea rdx (.offset rsp 32)),
    .code (.operate .mov .double rdi (.constant 1)),
    .code (.operate .xor .double rax rax),
    quad .sub rdx rsi,
    quad .mov rax (.constant 1),
    .code .syscall,
    quad .add rsp (.constant 40),
    .code .ret]

/-- What every program begins with. -/
def prologue : List Line :=
  [.format, .segment] ++ dumpRoutine ++ [.entry .main, .label .main]

/-- What every program ends with: it leaves with code zero. -/
def epilogue : List Line :=
  [.title "exit",
    quad .mov rax (.constant 60),
    quad .mov rdi (.constant 0),
    .code .syscall]

/-- Replaces two values by their sum. -/
def plus : List Line :=
  [.title "plus",
    .code (.pop rax),
    .code (.pop rbx),
    quad .add rax rbx,
    .code (.push rax)]

/-- Replaces two values by the second less the first. -/
def minus : List Line :=
  [.title "minus",
    .code (.pop rax),
    .code (.pop rbx),
    quad .sub rbx rax,
    .code (.push rbx)]

/-- Replaces two values by one constant if they are equal and another if not. -/
def compare (title : String) (ifEqual ifNot : Int) : List Line :=
  [.title title,
    quad .mov rcx (.constant ifNot),
    quad .mov rdx (.constant ifEqual),
    .code (.pop rax),
    .code (.pop rbx),
    quad .cmp rax rbx,
    quad .cmove rcx rdx,
    .code (.push rcx)]

/-- Replaces two values by whether they are equal. -/
def equal : List Line :=
  compare "equal" 1 0

/-- Replaces two values by whether they differ. -/
def notEqual : List Line :=
  compare "not equal" 0 1

/-- Pops a value and prints it. -/
def dump : List Line :=
  [.title "dump",
    .code (.pop rdi),
    .code (.call .dump)]

/-- Pushes a constant. An immediate operand has 32 bits and a sign; anything wider goes through a
register. -/
def push (value : Cell) : List Line :=
  let constant := value.toInt
  let title := .title s!"push {constant}"
  if -0x80000000 ≤ constant ∧ constant < 0x80000000 then
    [title, .code (.push (.constant constant))]
  else [title, quad .mov rax (.constant constant), .code (.push rax)]

/-- Pops a value and jumps if it is zero. -/
def jumpIfZero (target : Label) : List Line :=
  [.title "if",
    .code (.pop rax),
    quad .test rax rax,
    .code (.jump .zero target)]

/-- Ends the first arm of a conditional and starts the other. -/
def otherwise (exit landing : Label) : List Line :=
  [.title "else",
    .code (.jump .always exit),
    .label landing]

end Stacklet.Assembly
