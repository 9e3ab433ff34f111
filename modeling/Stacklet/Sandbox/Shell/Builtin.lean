import Stacklet.Sandbox.Shell

/-! # Built-in commands

The commands that a shell carries out by itself. There are no others: a name that is not listed
here is not found.
-/

namespace Stacklet.Sandbox.Shell

/-- The number that a text spells. -/
def number? (text : String) : Option Int :=
  let digits := match text.toList with
    | '-' :: digits | '+' :: digits => digits
    | digits => digits
  if digits ≠ [] ∧ digits.all Char.isDigit then
    some (if text.startsWith "-" then -digitsValue digits else digitsValue digits)
  else none

/-- The natural number that an argument spells. -/
def count? (text : String) : Option Nat :=
  if text ≠ "" ∧ text.toList.all Char.isDigit then some (digitsValue text.toList) else none

/-! ## Printing -/

/-- The value of octal digits. -/
def octalValue (digits : List Char) : Nat :=
  digits.foldl (fun value digit => 8 * value + (digit.toNat - '0'.toNat)) 0

/-- The characters of octal digits. -/
def isOctal (c : Char) : Bool :=
  '0' ≤ c && c ≤ '7'

/-- The character that a letter behind a backslash stands for. -/
def escaped? : Char → Option Char
  | 'a' => some '\x07'
  | 'b' => some '\x08'
  | 'f' => some '\x0c'
  | 'n' => some '\n'
  | 'r' => some '\r'
  | 't' => some '\t'
  | 'v' => some '\x0b'
  | '\\' => some '\\'
  | _ => none

/-- A text with its escapes replaced, in at most `fuel` steps, and whether an escape in it ends all
output. Octal escapes have up to three digits, not counting a first zero if `leadingZero` allows
one. -/
def unescape (leadingZero : Bool) : (fuel : Nat) → List Char → List Char × Bool
  | 0, _ | _, [] => ([], false)
  | _, '\\' :: 'c' :: _ => ([], true)
  | fuel + 1, '\\' :: c :: rest =>
    let text := if leadingZero && c = '0' then rest else c :: rest
    let digits := (text.take 3).takeWhile isOctal
    if isOctal c then
      let (others, stops) := unescape leadingZero fuel (text.drop digits.length)
      (Char.ofNat (octalValue digits) :: others, stops)
    else
      let (others, stops) := unescape leadingZero fuel rest
      match escaped? c with
      | some meant => (meant :: others, stops)
      | none => ('\\' :: c :: others, stops)
  | fuel + 1, c :: rest =>
    let (others, stops) := unescape leadingZero fuel rest
    (c :: others, stops)

/-- Prints arguments with spaces between them. -/
def echo (shell : Shell) (arguments : List String) : Flow × Shell :=
  let (texts, ending) := match arguments with
    | "-n" :: texts => (texts, "")
    | texts => (texts, "\n")
  let line := (" ".intercalate texts).toList
  let (text, stops) := unescape true line.length line
  (shell.print (String.ofList text ++ if stops then "" else ending)).done 0

/-- A field of a format. -/
structure Directive where
  leftAligned : Bool
  zeroFilled : Bool
  width : Nat
  precision : Option Nat
  conversion : Char

/-- Reads a field of a format behind its percent sign. -/
def directive? (text : List Char) : Option (Directive × List Char) :=
  let flags := text.takeWhile fun c => c = '-' || c = '0' || c = '+' || c = ' ' || c = '#'
  let text := text.drop flags.length
  let width := text.takeWhile Char.isDigit
  let text := text.drop width.length
  let places := if text.head? = some '.' then some ((text.drop 1).takeWhile Char.isDigit) else none
  match text.drop ((places.map (·.length + 1)).getD 0) with
  | conversion :: rest =>
    some (⟨flags.contains '-', flags.contains '0', digitsValue width, places.map digitsValue,
      conversion⟩, rest)
  | [] => none

/-- The text of an argument in a field, before it is filled up. -/
def Directive.convert (directive : Directive) (argument : String) : List Char :=
  let number := (number? argument).getD 0
  match directive.conversion with
  | 'd' | 'i' | 'u' => (toString number).toList
  | 'x' => Nat.toDigits 16 number.toNat
  | 'o' => Nat.toDigits 8 number.toNat
  | 'c' => argument.toList.take 1
  | 'b' => (unescape true argument.length argument.toList).1
  | _ =>
    match directive.precision with
    | some places => argument.toList.take places
    | none => argument.toList

/-- The text of an argument in a field. -/
def Directive.render (directive : Directive) (argument : String) : List Char :=
  let text := directive.convert argument
  let missing := directive.width - text.length
  if directive.leftAligned then text ++ List.replicate missing ' '
  else if directive.zeroFilled && "diuxo".toList.contains directive.conversion then
    List.replicate missing '0' ++ text
  else List.replicate missing ' ' ++ text

/-- Fills a format once; the arguments that are left over come back. -/
def fill : (fuel : Nat) → List Char → List String → List Char × List String
  | 0, _, arguments | _, [], arguments => ([], arguments)
  | fuel + 1, '%' :: '%' :: rest, arguments =>
    let (text, left) := fill fuel rest arguments
    ('%' :: text, left)
  | fuel + 1, c :: rest, arguments =>
    match (if c = '%' then directive? rest else none) with
    | some (directive, behind) =>
      let (text, left) := fill fuel behind arguments.tail
      (directive.render (arguments.headD "") ++ text, left)
    | none =>
      let (text, left) := fill fuel rest arguments
      (c :: text, left)

/-- Fills a format as often as there are arguments for it. -/
def fillAll (format : List Char) : (fuel : Nat) → List String → List Char
  | 0, _ => []
  | fuel + 1, arguments =>
    let (text, left) := fill format.length format arguments
    if left.isEmpty || left.length = arguments.length then text
    else text ++ fillAll format fuel left

/-- Prints arguments with a format. -/
def printf (shell : Shell) : List String → Flow × Shell
  | [] => (shell.complain "printf: usage: printf format [arg ...]").done 2
  | format :: arguments =>
    let (format, _) := unescape false format.length format.toList
    (shell.print (String.ofList (fillAll format (arguments.length + 1) arguments))).done 0

/-! ## Reading -/

/-- The line ahead with marks on the characters that a backslash quotes, the text behind it, and
whether the line is complete. -/
def takeLine (raw : Bool) : (fuel : Nat) → List Char → List Pattern.Marked × List Char × Bool
  | 0, text => ([], text, false)
  | _, [] => ([], [], false)
  | _, '\n' :: rest => ([], rest, true)
  | fuel + 1, c :: rest =>
    match raw || c ≠ '\\', rest with
    | false, '\n' :: rest => takeLine raw fuel rest
    | false, c :: rest =>
      let (line, behind) := takeLine raw fuel rest
      ((c, true) :: line, behind)
    | _, rest =>
      let (line, behind) := takeLine raw fuel rest
      ((c, false) :: line, behind)

/-- Gives the fields of a line to variables; the last takes the rest of the line. -/
def assignFields (separators : List Char) (shell : Shell) :
    List String → List Pattern.Marked → Shell
  | [], _ => shell
  | name :: names, line =>
    let separates : Pattern.Marked → Bool := fun c => !c.2 && separators.contains c.1
    let blank : Pattern.Marked → Bool := fun c => separates c && isBlank c.1
    let field := if names.isEmpty then (line.reverse.dropWhile blank).reverse
      else line.takeWhile (!separates ·)
    let behind := (line.drop field.length).dropWhile blank
    let behind := if behind.head?.any separates then behind.drop 1 else behind
    (shell.set name (String.ofList (field.map (·.1)))).assignFields separators names
      (behind.dropWhile blank)

/-- Reads a line of input into variables. It fails at the end of the input. -/
def readLine (shell : Shell) (arguments : List String) : Flow × Shell :=
  let raw := arguments.head? = some "-r"
  let names := if raw then arguments.tail else arguments
  if names.isEmpty then (shell.complain "read: arg count").done 2
  else
    let (line, behind, complete) := takeLine raw (shell.input.length + 1) shell.input
    let separators := shell.separators
    let text := line.dropWhile fun c => !c.2 && separators.contains c.1 && isBlank c.1
    (assignFields separators { shell with input := behind } names text).answer complete

/-! ## Tests -/

/-- A test with one operand. -/
def testOne (shell : Shell) (sign operand : String) : Option Bool :=
  let entry := match shell.world.files.resolve shell.here operand with
    | .ok path => shell.world.files.find? path
    | .error _ => none
  match sign, entry with
  | "-n", _ => some (operand ≠ "")
  | "-z", _ => some (operand = "")
  | "-e", entry => some entry.isSome
  | "-f", some (.file ..) | "-r", some _ | "-w", some _ => some true
  | "-d", some .directory => some true
  | "-s", some (.file content _) => some (content.size ≠ 0)
  | "-s", some .directory => some true
  | "-x", some (.file _ executable) => some executable
  | "-x", some .directory => some true
  | "-f", _ | "-r", _ | "-w", _ | "-d", _ | "-s", _ | "-x", _ => some false
  | _, _ => none

/-- Signs between two texts. -/
def textSign? : String → Option (String → String → Bool)
  | "=" => some fun left right => left = right
  | "!=" => some fun left right => left ≠ right
  | _ => none

/-- Signs between two numbers. -/
def numberSign? : String → Option (Int → Int → Bool)
  | "-eq" => some fun left right => left = right
  | "-ne" => some fun left right => left ≠ right
  | "-lt" => some fun left right => left < right
  | "-le" => some fun left right => left ≤ right
  | "-gt" => some fun left right => right < left
  | "-ge" => some fun left right => right ≤ left
  | _ => none

/-- The outcome of a test, or what is wrong with it. -/
abbrev Verdict := Except String Bool

/-- The number that an operand spells. -/
def operand (text : String) : Except String Int :=
  match number? text with
  | some value => .ok value
  | none => .error s!"Illegal number: {text}"

/-- A test with a sign between two operands, if the sign is one. -/
def testTwo? (left sign right : String) : Option Verdict :=
  match textSign? sign, numberSign? sign with
  | some holds, _ => some (.ok (holds left right))
  | none, some holds => some do return holds (← operand left) (← operand right)
  | none, none => none

/-- A test without connectives. -/
def testPlain (shell : Shell) : List String → Verdict
  | [] => .ok false
  | [text] => .ok (text ≠ "")
  | [sign, text] =>
    match shell.testOne sign text with
    | some outcome => .ok outcome
    | none => .error s!"{sign}: unexpected operator"
  | left :: sign :: right :: _ =>
    match testTwo? left sign right with
    | some verdict => verdict
    | none => .error s!"{sign}: unexpected operator"

/-- Evaluates a test with at most `fuel` connectives. -/
def test (shell : Shell) : (fuel : Nat) → List String → Verdict
  | 0, operands => shell.testPlain operands
  | fuel + 1, operands => do
    let before := fun sign => operands.takeWhile (· ≠ sign)
    let behind := fun sign => (operands.dropWhile (· ≠ sign)).drop 1
    match operands with
    | [left, sign, right] =>
      if (testTwo? left sign right).isSome then return ← shell.testPlain operands
    | _ => pure ()
    if operands.length ≥ 3 ∧ operands.contains "-o" then
      return (← shell.test fuel (before "-o")) || (← shell.test fuel (behind "-o"))
    else if operands.length ≥ 3 ∧ operands.contains "-a" then
      return (← shell.test fuel (before "-a")) && (← shell.test fuel (behind "-a"))
    else
      match operands with
      | "!" :: operand :: rest => return !(← shell.test fuel (operand :: rest))
      | _ => shell.testPlain operands

/-- Runs a test under a name. One that cannot be read has a status of its own. -/
def runTest (shell : Shell) (name : String) (operands : List String) : Flow × Shell :=
  match shell.test operands.length operands with
  | .ok outcome => shell.answer outcome
  | .error message => (shell.complain s!"{name}: {message}").done 2

/-! ## Other commands -/

/-- Sets arguments and switches. -/
def setOptions (shell : Shell) : List String → Shell
  | [] => shell
  | "--" :: arguments => { shell with arguments }
  | "-e" :: rest => setOptions { shell with strict := true } rest
  | "+e" :: rest => setOptions { shell with strict := false } rest
  | option :: rest =>
    if option.startsWith "-" || option.startsWith "+" then shell.setOptions rest
    else { shell with arguments := option :: rest }

/-- Sets the variables that arguments of the form `name=value` name. -/
def assignAll (shell : Shell) (arguments : List String) : Shell :=
  arguments.foldl (fun shell argument =>
    let text := argument.toList
    let name := text.takeWhile (· ≠ '=')
    if text.contains '=' then
      shell.set (String.ofList name) (String.ofList (text.drop (name.length + 1)))
    else shell) shell

/-- Ends the script with the status that an argument gives, or else with that of the last command.
-/
def exit (shell : Shell) (name : String) : List String → Flow × Shell
  | [] => (.leave, shell)
  | argument :: _ =>
    match count? argument with
    | some code => shell.leaveWith code.toUInt8
    | none => (shell.complain s!"{name}: Illegal number: {argument}").leaveWith 2

/-- Leaves so many loops as an argument says, one without it; there may be none to leave. -/
def leaveLoops (shell : Shell) (flow : Nat → Flow) (arguments : List String) : Flow × Shell :=
  let levels := min ((arguments.head?.bind count?).getD 1) shell.loops
  if levels = 0 then shell.done 0 else (flow (levels - 1), { shell with status := 0 })

/-- Drops arguments of the script. -/
def shift (shell : Shell) (arguments : List String) : Flow × Shell :=
  let number := (arguments.head?.bind count?).getD 1
  if shell.arguments.length < number then
    (shell.complain "shift: can't shift that many").leaveWith 2
  else { shell with arguments := shell.arguments.drop number }.done 0

/-- Moves to another directory. -/
def changeDirectory (shell : Shell) (arguments : List String) : Flow × Shell :=
  let name := arguments.headD ""
  let files := shell.world.files
  let target := do
    let path ← files.resolve shell.here name
    files.checkDirectory path
    return path
  match target with
  | .ok here => { shell with here }.done 0
  | .error _ => (shell.complain s!"cd: can't cd to {name}").done 2

/-- Signals by name and number. -/
def signals : List (String × Nat) :=
  [("HUP", 1), ("INT", 2), ("QUIT", 3), ("ABRT", 6), ("KILL", 9), ("SEGV", 11), ("PIPE", 13),
    ("ALRM", 14), ("TERM", 15)]

/-- The signal that a text names. -/
def signal? (text : String) : Option Nat :=
  match count? text with
  | some number => some number
  | none => (signals.find? (·.1 = text)).map (·.2)

/-- Sends a signal. The only process to send one to is the shell itself. -/
def kill (shell : Shell) (arguments : List String) : Flow × Shell :=
  let (signal, target) := match arguments with
    | ["-s", name, target] => (signal? name, target)
    | [option, target] => (signal? (String.ofList (option.toList.drop 1)), target)
    | arguments => (some 15, arguments.headD "")
  match signal with
  | some 0 => shell.done 0
  | some signal =>
    if target = processNumber then (.killed signal, shell)
    else (shell.complain "kill: No such process").done 1
  | none => (shell.complain "kill: Illegal option").done 2

/-- Replaces the shell by another program, which there is not, or only its redirections. -/
def exec (shell : Shell) : List String → Flow × Shell
  | [] => (.keepRedirections, { shell with status := 0 })
  | name :: _ => (shell.complain s!"exec: {name}: not found").leaveWith 127

/-- Commands whose assignments last, and whose failing redirections end the script. -/
def specialCommands : List String :=
  [":", "break", "continue", "exec", "exit", "export", "readonly", "return", "set", "shift",
    "unset"]

/-- Runs a command. -/
def builtin (shell : Shell) (name : String) (arguments : List String) : Flow × Shell :=
  match name with
  | ":" | "true" | "umask" | "ulimit" | "wait" => shell.done 0
  | "false" => shell.done 1
  | "echo" => shell.echo arguments
  | "printf" => shell.printf arguments
  | "read" => shell.readLine arguments
  | "test" => shell.runTest name arguments
  | "[" =>
    if arguments.getLast? = some "]" then shell.runTest name arguments.dropLast
    else (shell.complain "[: missing ]").done 2
  | "set" => (shell.setOptions arguments).done 0
  | "export" | "readonly" => (shell.assignAll arguments).done 0
  | "unset" => (arguments.foldl unset shell).done 0
  | "shift" => shell.shift arguments
  | "break" => shell.leaveLoops .breakLoop arguments
  | "continue" => shell.leaveLoops .nextRound arguments
  | "exit" | "return" => shell.exit name arguments
  | "cd" => shell.changeDirectory arguments
  | "kill" => shell.kill arguments
  | "exec" => shell.exec arguments
  | _ => (shell.complain s!"{name}: not found").done 127

end Stacklet.Sandbox.Shell
