import Stacklet.Sandbox.Files
import Stacklet.Sandbox.Pattern
import Stacklet.Sandbox.Script
import Stacklet.Text.Utf8

/-! # Shells

The state in which command scripts are run, and the expansion of words in it. Everything that a
script reads or writes is in memory.
-/

namespace Stacklet.Sandbox

open Cli (OsError ExitStatus)

/-- Where output goes. -/
inductive Sink where
  | output
  | errors
  | nowhere
  | file (path : Path)
deriving DecidableEq, Repr

/-- The state of a shell. -/
structure Shell where
  world : World
  here : Path
  /-- The name by which the script was called. -/
  script : String
  arguments : List String
  bindings : List (String × String)
  status : UInt8
  input : List Char
  output : Sink
  errors : Sink
  /-- The line of the script that is being run. -/
  line : Nat
  /-- Number of loops around the command that is being run. -/
  loops : Nat
  /-- Whether a failure ends the script. -/
  strict : Bool
  /-- Whether the outcome of the command that is being run is looked at, so that it may fail. -/
  tested : Bool

/-- What follows a command. -/
inductive Flow where
  | next
  | leave
  /-- Leave a loop, and so many more around it. -/
  | breakLoop (more : Nat)
  /-- Go on with the next round of a loop, after leaving so many inside it. -/
  | nextRound (more : Nat)
  | killed (signal : Nat)
  /-- Go on with the redirections of the command. -/
  | keepRedirections
deriving DecidableEq, Repr

namespace Shell

/-- Appends to a sink. -/
def writeTo (shell : Shell) (sink : Sink) (text : String) : Shell :=
  let world := shell.world
  match sink with
  | .output => { shell with world := { world with output := world.output ++ text } }
  | .errors => { shell with world := { world with errors := world.errors ++ text } }
  | .nowhere => shell
  | .file path =>
    match world.files.find? path with
    | some (.file content executable) =>
      let files := world.files.insert path (.file (content ++ text.toUTF8) executable)
      { shell with world := { world with files } }
    | _ => shell

/-- Writes to the output. -/
def print (shell : Shell) (text : String) : Shell :=
  shell.writeTo shell.output text

/-- Writes a message about the script to the errors. -/
def complain (shell : Shell) (text : String) : Shell :=
  shell.writeTo shell.errors s!"{shell.script}: {shell.line}: {text}\n"

/-- Ends a command with a status. -/
def done (shell : Shell) (status : UInt8) : Flow × Shell :=
  (.next, { shell with status })

/-- Ends a command with success or failure. -/
def answer (shell : Shell) (success : Bool) : Flow × Shell :=
  shell.done (if success then 0 else 1)

/-- Ends the script with a status. -/
def leaveWith (shell : Shell) (status : UInt8) : Flow × Shell :=
  (.leave, { shell with status })

/-- The value of a variable that is set. -/
def value? (shell : Shell) (name : String) : Option String :=
  (shell.bindings.find? (·.1 = name)).map (·.2)

/-- Unsets a variable. -/
def unset (shell : Shell) (name : String) : Shell :=
  { shell with bindings := shell.bindings.filter (·.1 ≠ name) }

/-- Sets a variable. -/
def set (shell : Shell) (name value : String) : Shell :=
  { shell with bindings := (name, value) :: (shell.unset name).bindings }

/-- Gives variables back the values that they had before. -/
def restoreBindings (before after : Shell) (names : List String) : Shell :=
  { after with
    bindings := before.bindings.filter (names.contains ·.1) ++
      after.bindings.filter (!names.contains ·.1) }

/-! ## Expansion -/

/-- Characters between fields. -/
def separators (shell : Shell) : List Char :=
  ((shell.value? "IFS").getD " \t\n").toList

/-- Whether a character is blank. -/
def isBlank (c : Char) : Bool :=
  c = ' ' || c = '\t' || c = '\n'

/-- The number under which a shell knows itself. -/
def processNumber : String := "1"

/-- The value of a parameter. -/
def valueOf (shell : Shell) (name : String) : String :=
  match name with
  | "#" => toString shell.arguments.length
  | "?" => toString shell.status.toNat
  | "$" => processNumber
  | "@" => " ".intercalate shell.arguments
  | "*" => (String.ofList (shell.separators.take 1)).intercalate shell.arguments
  | "0" => shell.script
  | _ =>
    match name.toNat? with
    | some index => shell.arguments.getD (index - 1) ""
    | none => (shell.value? name).getD ""

/-- Fields that are being put together: those that are complete, last first, and the one that is
not. -/
structure Fields where
  complete : List (List Char)
  current : Option (List Char)

namespace Fields

/-- Continues the last field. -/
def extend (fields : Fields) (text : List Char) : Fields :=
  { fields with current := some (fields.current.getD [] ++ text) }

/-- Completes the last field. -/
def cut (fields : Fields) : Fields :=
  match fields.current with
  | some text => ⟨text :: fields.complete, none⟩
  | none => fields

/-- Continues with text that is split. A blank separator ends a field if there is one, any other
also an empty one. -/
def split (separators : List Char) (fields : Fields) (text : List Char) : Fields :=
  text.foldl (fun fields c =>
    if !separators.contains c then fields.extend [c]
    else if isBlank c then fields.cut
    else (fields.extend []).cut) fields

/-- Continues with several fields. -/
def extendAll (fields : Fields) (extend : Fields → List Char → Fields) : List String → Fields
  | [] => fields
  | [value] => extend fields value.toList
  | value :: rest => (extend fields value.toList).cut.extendAll extend rest

end Fields

/-- Expands a part of a word. -/
def expandPart (shell : Shell) (fields : Fields) : Part → Fields
  | .text text _ => fields.extend text
  | .parameter "@" true => fields.extendAll .extend shell.arguments
  | .parameter "@" false | .parameter "*" false =>
    fields.extendAll (.split shell.separators) shell.arguments
  | .parameter name true => fields.extend (shell.valueOf name).toList
  | .parameter name false => fields.split shell.separators (shell.valueOf name).toList

/-- Expands words into fields. -/
def expand (shell : Shell) (words : List ScriptWord) : List String :=
  let addWord := fun fields parts => (List.foldl shell.expandPart fields parts).cut
  let fields := words.foldl addWord ⟨[], none⟩
  fields.complete.reverse.map String.ofList

/-- The characters of an expanded part, and which of them are quoted. -/
def expandMarked (shell : Shell) : Part → List Pattern.Marked
  | .text text quoted => text.map (·, quoted)
  | .parameter name quoted => (shell.valueOf name).toList.map (·, quoted)

/-- Expands a word without splitting it. -/
def expandWhole (shell : Shell) (parts : ScriptWord) : String :=
  String.ofList ((parts.flatMap shell.expandMarked).map (·.1))

/-- Expands a word into a pattern. -/
def expandPattern (shell : Shell) (parts : ScriptWord) : Pattern :=
  let text := parts.flatMap shell.expandMarked
  .ofMarked text.length text

end Shell

end Stacklet.Sandbox
