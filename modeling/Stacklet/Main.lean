import Stacklet.Cli.Session

/-! # The program

Carries out a session on the machine it runs on. Programs cannot be started from here, so building
an executable ends as if no assembler were installed.
-/

namespace Stacklet

open Cli

/-- The error of the operating system behind a failed operation. -/
def osErrorOf : IO.Error → OsError
  | .inappropriateType .. => .isDirectory
  | .resourceBusy .. => .isDirectory
  | .permissionDenied _ number description => .other number.toNat description
  | .resourceExhausted _ number description => .other number.toNat description
  | .resourceVanished number description => .other number.toNat description
  | .otherError number description => .other number.toNat description
  | _ => .notFound

/-- An operation, or the error of the operating system that it failed with. -/
def guarded {α : Type} (operation : IO α) : IO (Except OsError α) := do
  match ← operation.toBaseIO with
  | .ok value => return .ok value
  | .error error => return .error (osErrorOf error)

/-- Reads a file that has to be text. -/
def readSourceFile (path : String) : IO (Except ReadError (List Char)) := do
  match ← guarded (IO.FS.readBinFile path) with
  | .error error => return .error (.os error)
  | .ok bytes =>
    match String.fromUTF8? bytes with
    | some text => return .ok text.toList
    | none => return .error .notText

/-- The machine that the program runs on. -/
def terminal : Host IO where
  print text := guarded do (← IO.getStdout).putStr text
  complain text := do (← IO.getStderr).putStr text
  readSource := readSourceFile
  writeFile path text := guarded (IO.FS.writeFile path text)
  assemble _ _ _ := return .error .notFound
  markExecutable path :=
    guarded (IO.setAccessRights path ⟨⟨true, true, true⟩, ⟨true, false, true⟩, ⟨true, false, true⟩⟩)
  isFile path := return (← guarded (IO.FS.readBinFile path)).isOk
  execute _ := return .error .notFound

end Stacklet

/-- Runs the command line. -/
def main (arguments : List String) : IO UInt32 := do
  let session := Stacklet.Cli.Session.ofRequest (.ofArguments arguments)
  return (← session.run Stacklet.terminal).toUInt32
