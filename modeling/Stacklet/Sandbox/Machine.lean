import Stacklet.Sandbox.Shell.Run

/-! # A machine in memory

Carries out sessions of the command line without touching anything outside: files are in memory, and
the assembler and the programs that it makes are command scripts. The command line works in one
directory, and another holds the assembler.
-/

namespace Stacklet.Sandbox

open Cli (ExitStatus Host OsError ReadError Request Session)

/-- The directory in which the command line works. -/
def workPath : Path := ["work"]

/-- Where the assembler is, if it is installed. -/
def assemblerPath : Path := ["bin", "fasm"]

namespace World

/-- A machine with the given files in its working directory and, perhaps, an assembler. -/
def start (files : List (String × Entry)) (assembler : Option String) : World :=
  let empty : Files := ⟨[(workPath, .directory), (assemblerPath.dropLast, .directory)]⟩
  let work := files.foldl (fun tree (name, entry) =>
    let path := workPath ++ (name.splitOn "/").filter (· ≠ "")
    (tree.makeParents path).insert path entry) empty
  let all := match assembler with
    | some script => work.insert assemblerPath (.file script.toUTF8 true)
    | none => work
  ⟨all, "", ""⟩

/-- The files in the working directory, with their names below it. -/
def workFiles (world : World) : List (String × ByteArray × Bool) :=
  world.files.entries.filterMap fun (path, entry) =>
    match entry with
    | .file content executable =>
      if workPath.isPrefixOf path then
        some ("/".intercalate (path.drop workPath.length), content, executable)
      else none
    | .directory => none

end World

/-- Programs that can run scripts. -/
def interpreters : List String :=
  ["/bin/sh", "/bin/dash", "/usr/bin/sh", "/usr/bin/dash"]

/-- The interpreter that the first line of a script names. -/
def interpreter? : List Char → Option String
  | '#' :: '!' :: rest =>
    let line := (rest.takeWhile (· ≠ '\n')).dropWhile (· = ' ')
    some (String.ofList (line.takeWhile (· ≠ ' ')))
  | _ => none

/-- Starts a program under a name. Only scripts can be started. -/
def launch (name : String) (content : ByteArray) (arguments : List String) (world : World) :
    Except OsError (ExitStatus × World) :=
  let text := Utf8.textOf content
  match interpreter? text with
  | none => .error .execFormat
  | some program =>
    if interpreters.contains program then .ok (runScript workPath name text arguments world)
    else .error .notFound

namespace Machine

/-- Reads a source file. -/
def readSource (path : String) (world : World) : Except ReadError (List Char) :=
  if path = nullDevice then .ok []
  else
    match world.files.resolve workPath path >>= world.files.read with
    | .error error => .error (.os error)
    | .ok content =>
      match Utf8.text? content with
      | some text => .ok text
      | none => .error .notText

/-- Writes a file. A name that ends in a slash can only be that of a directory. -/
def writeFile (path text : String) (world : World) : Except OsError World :=
  if path = nullDevice then .ok world
  else
    let files := world.files
    let trimmed := String.ofList (path.toList.reverse.dropWhile (· = '/')).reverse
    match files.resolve workPath trimmed with
    | .error error => .error error
    | .ok target =>
      match files.find? target, trimmed == path with
      | some (.file ..), false => .error .notDirectory
      | none, false => .error .isDirectory
      | _, _ => (files.write target text.toUTF8).map ({ world with files := · })

/-- Runs the assembler. Unless it is to be heard, what it writes is dropped. -/
def assemble (source output : String) (echo : Bool) (world : World) :
    Except OsError (ExitStatus × World) := do
  let script ← world.files.read assemblerPath
  let (status, after) ← launch "fasm" script [source, output] world
  return (status,
    if echo then after else { after with output := world.output, errors := world.errors })

/-- Marks a file as executable. -/
def markExecutable (path : String) (world : World) : Except OsError World := do
  let files ← world.files.markExecutable (← world.files.resolve workPath path)
  return { world with files }

/-- Whether a path leads to a file. -/
def isFile (path : String) (world : World) : Bool :=
  match world.files.resolve workPath path >>= world.files.read with
  | .ok _ => true
  | .error _ => false

/-- Runs a program. -/
def execute (path : String) (world : World) : Except OsError (ExitStatus × World) := do
  let target ← world.files.resolve workPath path
  launch path (← world.files.read target) [] world

/-- A step that changes the world unless it fails. -/
def attempt {α : Type} (step : World → Except OsError (α × World)) :
    StateM World (Except OsError α) :=
  fun world =>
    match step world with
    | .ok (value, after) => (.ok value, after)
    | .error error => (.error error, world)

/-- A step that does nothing but change the world. -/
def attemptChange (step : World → Except OsError World) : StateM World (Except OsError Unit) :=
  attempt fun world => (step world).map ((), ·)

/-- The machine as a host of sessions. -/
def host : Host (StateM World) where
  print text := attemptChange fun world => .ok { world with output := world.output ++ text }
  complain text := modify fun world => { world with errors := world.errors ++ text }
  readSource path := readSource path <$> get
  writeFile path text := attemptChange (writeFile path text)
  assemble source output echo := attempt (assemble source output echo)
  markExecutable path := attemptChange (markExecutable path)
  isFile path := isFile path <$> get
  execute path := attempt (execute path)

end Machine

/-- Runs the command line with arguments: the code it leaves with, and the world then. -/
def World.runCommandLine (world : World) (arguments : List String) : UInt8 × World :=
  ((Session.ofRequest (.ofArguments arguments)).run Machine.host).run world

end Stacklet.Sandbox
