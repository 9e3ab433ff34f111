import Stacklet.Compile

/-! # Arguments of the command line

One source file and a few options. Options may be written long or short, short ones may be run
together, and a value may follow its option as the next argument, directly, or behind an equals
sign. An argument that looks like an option is never taken for a value.
-/

namespace Stacklet.Cli

/-- What the arguments ask for. -/
structure Options where
  input : String
  frontEnd : FrontEnd
  output : String
  /-- Stop at the assembly. -/
  assemblyOnly : Bool
  /-- Run the executable once built. -/
  run : Bool
  /-- Run the executable and time it. -/
  time : Bool
  /-- Let the assembler write to the terminal. -/
  echo : Bool
  verbose : Bool
deriving DecidableEq, Repr

/-- What the command line is to do. -/
inductive Request where
  | build (options : Options)
  | version
  | help
  /-- The arguments make no sense. -/
  | refuse
deriving DecidableEq, Repr

/-- Options without a value. -/
inductive Flag where
  | assemblyOnly
  | run
  | time
  | echo
  | verbose
  | version
  | help
deriving DecidableEq, Repr

/-- Options with a value. -/
inductive Setting where
  | frontEnd
  | output
deriving DecidableEq, Repr

/-- An option. -/
inductive Switch where
  | flag (flag : Flag)
  | setting (setting : Setting)
deriving DecidableEq, Repr

namespace Switch

/-- The option with a long name. -/
def ofLong? : String → Option Switch
  | "pipeline" => some (setting .frontEnd)
  | "output" => some (setting .output)
  | "run" => some (flag .run)
  | "time" => some (flag .time)
  | "echo-asm" => some (flag .echo)
  | "verbose" => some (flag .verbose)
  | "help" => some (flag .help)
  | "version" => some (flag .version)
  | _ => none

/-- The option with a letter. -/
def ofLetter? : Char → Option Switch
  | 'p' => some (setting .frontEnd)
  | 'o' => some (setting .output)
  | 'S' => some (flag .assemblyOnly)
  | 'r' => some (flag .run)
  | 'v' => some (flag .verbose)
  | 'h' => some (flag .help)
  | 'V' => some (flag .version)
  | _ => none

end Switch

/-- A thing that arguments say. -/
inductive Mention where
  | flag (flag : Flag)
  | setting (setting : Setting) (value : List Char)
  | input (value : List Char)
  /-- An option that is not known, lacks its value, or has one too many. -/
  | mistake
deriving DecidableEq, Repr

/-- What letters run together say, and an option that still waits for its value. -/
def mentionsOfLetters : List Char → List Mention × Option Setting
  | [] => ([], none)
  | letter :: rest =>
    match Switch.ofLetter? letter with
    | none => ([.mistake], none)
    | some (.flag flag) =>
      let (mentions, waiting) := mentionsOfLetters rest
      (.flag flag :: mentions, waiting)
    | some (.setting setting) =>
      match rest with
      | [] => ([], some setting)
      | '=' :: value => ([.setting setting value], none)
      | value => ([.setting setting value], none)

/-- What a long option says, and whether it still waits for its value. -/
def mentionsOfLong (argument : List Char) : List Mention × Option Setting :=
  let name := argument.takeWhile (· ≠ '=')
  let value := argument.dropWhile (· ≠ '=')
  match Switch.ofLong? (String.ofList name), value with
  | none, _ => ([.mistake], none)
  | some (.flag flag), [] => ([.flag flag], none)
  | some (.flag _), _ :: _ => ([.mistake], none)
  | some (.setting setting), [] => ([], some setting)
  | some (.setting setting), _ :: value => ([.setting setting value], none)

/-- A mistake when an option was left waiting. -/
def unanswered : Option Setting → List Mention
  | none => []
  | some _ => [.mistake]

/-- What arguments say, in order, when an option may be waiting for its value. A single hyphen is no
option, and two of them end the options. -/
def mentions : (waiting : Option Setting) → List (List Char) → List Mention
  | waiting, [] => unanswered waiting
  | waiting, ['-', '-'] :: rest => rest.map .input ++ unanswered waiting
  | waiting, ('-' :: '-' :: name) :: rest =>
    let (said, next) := mentionsOfLong name
    said ++ mentions next rest ++ unanswered waiting
  | waiting, ('-' :: letter :: letters) :: rest =>
    let (said, next) := mentionsOfLetters (letter :: letters)
    said ++ mentions next rest ++ unanswered waiting
  | some setting, value :: rest => .setting setting value :: mentions none rest
  | none, value :: rest => .input value :: mentions none rest

/-- Whether a request for the version or for help comes before anything that cannot be read. A
second source file cannot be read; values and repetitions are looked at later. -/
def earlyRequest? (hasInput : Bool) : List Mention → Option Request
  | [] => none
  | .flag .version :: _ => some .version
  | .flag .help :: _ => some .help
  | .mistake :: _ => none
  | .input _ :: rest => if hasInput then none else earlyRequest? true rest
  | _ :: rest => earlyRequest? hasInput rest

/-- The values that an option is given. -/
def valuesOf (setting : Setting) (said : List Mention) : List String :=
  said.filterMap fun mention =>
    match mention with
    | .setting other value => if other = setting then some (String.ofList value) else none
    | _ => none

/-- The source files given. -/
def inputsOf (said : List Mention) : List String :=
  said.filterMap fun mention =>
    match mention with
    | .input value => some (String.ofList value)
    | _ => none

/-- Whether a flag is given; nothing if it is given more than once. -/
def flagIn? (flag : Flag) (said : List Mention) : Option Bool :=
  match said.count (.flag flag) with
  | 0 => some false
  | 1 => some true
  | _ => none

/-- The value of an option, or its default; nothing if it is given more than once. -/
def valueIn? (setting : Setting) (default : String) (said : List Mention) : Option String :=
  match valuesOf setting said with
  | [] => some default
  | [value] => some value
  | _ => none

/-- The options that mentions without mistake amount to. -/
def optionsOf? (said : List Mention) : Option Options := do
  let [input] := inputsOf said | none
  let frontEnd ← FrontEnd.ofName? (← valueIn? .frontEnd "tree" said)
  let output ← valueIn? .output "out" said
  return {
    input, frontEnd, output
    assemblyOnly := ← flagIn? .assemblyOnly said
    run := ← flagIn? .run said
    time := ← flagIn? .time said
    echo := ← flagIn? .echo said
    verbose := ← flagIn? .verbose said }

/-- What a list of arguments asks for. -/
def Request.ofArguments (arguments : List String) : Request :=
  let said := mentions none (arguments.map String.toList)
  match earlyRequest? false said with
  | some request => request
  | none =>
    if said.contains .mistake then .refuse
    else
      match optionsOf? said with
      | some options => .build options
      | none => .refuse

end Stacklet.Cli
