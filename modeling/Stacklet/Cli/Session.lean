import Stacklet.Cli.Arguments

/-! # Sessions of the command line

What the command line does, as a tree: each step asks the host for one thing and goes on according
to the answer. The tree is the same whatever the host is, so statements about it hold for every
file system, every assembler and every built program.
-/

namespace Stacklet.Cli

/-- Errors of the operating system. -/
inductive OsError where
  | notFound
  | execFormat
  | notDirectory
  | isDirectory
  /-- Any other, with its number and what the system says about it. -/
  | other (number : Nat) (description : String)
deriving DecidableEq, Repr

/-- What is said about the error. -/
def OsError.message : OsError → String
  | notFound => "No such file or directory (os error 2)"
  | execFormat => "Exec format error (os error 8)"
  | notDirectory => "Not a directory (os error 20)"
  | isDirectory => "Is a directory (os error 21)"
  | other number description => s!"{description} (os error {number})"

/-- Why a source file cannot be read. -/
inductive ReadError where
  | os (error : OsError)
  /-- The file is not UTF-8. -/
  | notText
deriving DecidableEq, Repr

/-- What is said about the error. -/
def ReadError.message : ReadError → String
  | os error => error.message
  | notText => "stream did not contain valid UTF-8"

/-- How a process ended. -/
inductive ExitStatus where
  | exited (code : UInt8)
  | killed (signal : Nat)
deriving DecidableEq, Repr

namespace ExitStatus

/-- The number that a parent process is told. -/
def wait : ExitStatus → Nat
  | exited code => code.toNat * 256
  | killed signal => signal

/-- Whether the process succeeded. -/
def succeeded (status : ExitStatus) : Bool :=
  status = exited 0

/-- The code to leave with after a process that ended so. -/
def code : ExitStatus → UInt8
  | exited code => code
  | killed _ => 1

end ExitStatus

/-- What the command line does, step by step. -/
inductive Session where
  /-- Leave with a code. -/
  | leave (code : UInt8)
  | print (text : String) (next : Except OsError Unit → Session)
  | complain (text : String) (next : Session)
  | readSource (path : String) (next : Except ReadError (List Char) → Session)
  | writeFile (path text : String) (next : Except OsError Unit → Session)
  /-- Start the assembler on a file. -/
  | assemble (source output : String) (echo : Bool) (next : Except OsError ExitStatus → Session)
  | markExecutable (path : String) (next : Except OsError Unit → Session)
  | isFile (path : String) (next : Bool → Session)
  /-- Start a program. -/
  | execute (path : String) (next : Except OsError ExitStatus → Session)

/-- A failure with its causes, outermost first. -/
structure Failure where
  message : String
  causes : List String
deriving DecidableEq, Repr

namespace Failure

/-- A text behind a margin, with its further lines behind another. -/
def indented (margin hanging text : String) : String :=
  margin ++ String.intercalate ("\n" ++ hanging) (text.splitOn "\n")

/-- The causes of a failure; several are numbered. -/
def renderCauses : List String → String
  | [] => ""
  | [cause] => "\n\nCaused by:\n" ++ indented "    " "    " cause
  | causes =>
    "\n\nCaused by:" ++ String.join (causes.zipIdx.map fun (cause, index) =>
      let number := toString index
      let margin := String.ofList (List.replicate (5 - number.length) ' ')
      "\n" ++ indented (margin ++ number ++ ": ") "       " cause)

/-- How a failure is shown. -/
def render (failure : Failure) : String :=
  s!"Error: {failure.message}{renderCauses failure.causes}\n"

end Failure

namespace Session

/-- Shows a failure and leaves. -/
def fail (message : String) (causes : List String) : Session :=
  complain (Failure.render ⟨message, causes⟩) (leave 1)

/-- Why an executable could not be built or run. -/
inductive BuildError where
  | os (error : OsError)
  | assemblerFailed (status : ExitStatus)
  | missing (path : String)
deriving DecidableEq, Repr

/-- The causes that an error amounts to. An error of the operating system stands for two: that
something went wrong, and what. -/
def BuildError.causes : BuildError → List String
  | os error => [s!"I/O error: {error.message}", error.message]
  | assemblerFailed status =>
    [s!"Assembler exited with status code ExitStatus(unix_wait_status({status.wait}))"]
  | missing path => [s!"Executable not found: {path}"]

/-- Gives up building. -/
def failBuild (output : String) (error : BuildError) : Session :=
  fail s!"Failed to generate executable: {output}" error.causes

/-- Whether a path starts at the root. -/
def isAbsolute (path : String) : Bool :=
  path.toList.head? = some '/'

/-- How many components a path has. The root is one. Slashes that end a path or follow each other
make none, and a dot is one only where a path begins with it. -/
def componentCount (path : String) : Nat :=
  let parts := path.toList.splitOn '/'
  let opening := if isAbsolute path ∨ parts.head? = some ['.'] then 1 else 0
  opening + (parts.filter fun part => part ≠ [] ∧ part ≠ ['.']).length

/-- How a program is started: a single component is looked up here, not among the installed
commands. The root is found from everywhere. -/
def invocation (path : String) : String :=
  if componentCount path = 1 ∧ ¬ isAbsolute path then "./" ++ path else path

/-- Runs the executable and leaves as it did. -/
def runOutput (output : String) : Session :=
  isFile output fun
    | false => failBuild output (.missing output)
    | true =>
      execute (invocation output) fun
        | .error error => failBuild output (.os error)
        | .ok status => leave status.code

/-- Makes an executable of an assembly file, and runs it if asked to. -/
def buildOutput (options : Options) (source : String) : Session :=
  let output := options.output
  assemble source output options.echo fun
    | .error error => failBuild output (.os error)
    | .ok status =>
      if status.succeeded then
        markExecutable output fun
          | .error error => failBuild output (.os error)
          | .ok () => if options.run || options.time then runOutput output else leave 0
      else failBuild output (.assemblerFailed status)

/-- Writes a file and goes on if that worked. -/
def emitTo (path text : String) (next : Session) : Session :=
  writeFile path text fun
    | .error error => fail s!"Failed to emit to file: {path}" [error.message]
    | .ok () => next

/-- Shows a text and goes on if that worked. -/
def emit (text : String) (next : Session) : Session :=
  print text fun
    | .error error => fail "Failed to emit to stdout" [error.message]
    | .ok () => next

/-- Delivers assembly as the options say. -/
def deliver (options : Options) (text : String) : Session :=
  match options.assemblyOnly, options.output with
  | true, "-" => emit text (leave 0)
  | true, path => emitTo path text (leave 0)
  | false, "-" => fail "Refusing to write executable to stdout" []
  | false, path => emitTo (path ++ ".asm") text (buildOutput options (path ++ ".asm"))

/-- Compiles a source file and delivers the result. -/
def build (options : Options) : Session :=
  readSource options.input fun
    | .error error => fail s!"Failed to read source file: {options.input}" [error.message]
    | .ok text =>
      match (compile text options.frontEnd).result with
      | .error error => complain (error.report.render ⟨options.input, text⟩) (leave 1)
      | .ok lines => deliver options (Assembly.render lines)

/-- The name and version of the program. -/
def versionText : String := "cforth 0.1.0\n"

/-- How the program is used. -/
def helpText : String :=
  versionText ++ "Stack language compiler for x86-64 Linux\n\n" ++
  "USAGE:\n    cforth [OPTIONS] <INPUT>\n\n" ++
  "ARGS:\n    <INPUT>    Source file\n\n" ++
  "OPTIONS:\n" ++
  "        --echo-asm               Show assembler output\n" ++
  "    -h, --help                   Print help information\n" ++
  "    -o, --output <FILE>          Output file ('-' along with -S for stdout) [default: out]\n" ++
  "    -p, --pipeline <PIPELINE>    Front end: grammar-based (tree) or word-based (flat) [default:\n" ++
  "                                 tree] [possible values: tree, flat]\n" ++
  "    -r, --run                    Run the executable once built\n" ++
  "    -S                           Generate assembly instead of an executable\n" ++
  "        --time                   Run the executable and report its wall time\n" ++
  "    -v, --verbose                Log compilation details\n" ++
  "    -V, --version                Print version information\n"

/-- The session that a request leads to. -/
def ofRequest : Request → Session
  | .build options => build options
  | .version => print versionText fun _ => leave 0
  | .help => print helpText fun _ => leave 0
  | .refuse => complain "error: The arguments were not understood\n" (leave 2)

end Session

/-- What a session asks of the world. -/
structure Host (m : Type → Type) where
  print : String → m (Except OsError Unit)
  complain : String → m Unit
  readSource : String → m (Except ReadError (List Char))
  writeFile : String → String → m (Except OsError Unit)
  assemble : (source output : String) → (echo : Bool) → m (Except OsError ExitStatus)
  markExecutable : String → m (Except OsError Unit)
  isFile : String → m Bool
  execute : String → m (Except OsError ExitStatus)

/-- Carries out a session on a host and gives the code it leaves with. -/
def Session.run {m : Type → Type} [Monad m] (host : Host m) : Session → m UInt8
  | leave code => pure code
  | print text next => do (next (← host.print text)).run host
  | complain text next => do
    host.complain text
    next.run host
  | readSource path next => do (next (← host.readSource path)).run host
  | writeFile path text next => do (next (← host.writeFile path text)).run host
  | assemble source output echo next => do (next (← host.assemble source output echo)).run host
  | markExecutable path next => do (next (← host.markExecutable path)).run host
  | isFile path next => do (next (← host.isFile path)).run host
  | execute path next => do (next (← host.execute path)).run host

end Stacklet.Cli
