import Stacklet.Sandbox.Shell.Builtin

/-! # Running command scripts

Scripts are run by recursion on their commands. The rounds of a loop are bounded, so running always
ends; a script that goes beyond the bound fails.
-/

namespace Stacklet.Sandbox

open Cli (OsError ExitStatus)

/-- A device that is always empty and swallows everything. -/
def nullDevice : String := "/dev/null"

namespace Shell

/-! ## Redirections -/

/-- Opens a file for output, empty unless it is to be appended to. -/
def openOutput (shell : Shell) (append : Bool) (name : String) : Except OsError (Path × Files) := do
  let files := shell.world.files
  let path ← files.resolve shell.here name
  match append, files.find? path with
  | true, some (.file ..) => return (path, files)
  | _, _ => return (path, ← files.write path .empty)

/-- What is said when a file cannot be opened for output. -/
def openMessage : OsError → String
  | .notFound => "Directory nonexistent"
  | .notDirectory => "Not a directory"
  | .isDirectory => "Is a directory"
  | .execFormat => "Exec format error"
  | .other _ description => description

/-- Changes where output or errors go. -/
def setSink (shell : Shell) (ofErrors : Bool) (sink : Sink) : Shell :=
  if ofErrors then { shell with errors := sink } else { shell with output := sink }

/-- Applies a redirection; a failure leaves a message and nothing else. -/
def redirect (shell : Shell) : Redirection → Except Shell Shell
  | .input source =>
    let name := shell.expandWhole source
    let files := shell.world.files
    if name = nullDevice then .ok { shell with input := [] }
    else
      match files.resolve shell.here name >>= files.read with
      | .ok content => .ok { shell with input := Utf8.textOf content }
      | .error _ => .error (shell.complain s!"cannot open {name}: No such file")
  | .output ofErrors append target =>
    let name := shell.expandWhole target
    if name = nullDevice then .ok (shell.setSink ofErrors .nowhere)
    else
      match shell.openOutput append name with
      | .ok (path, files) =>
        .ok ({ shell with world := { shell.world with files } }.setSink ofErrors (.file path))
      | .error error => .error (shell.complain s!"cannot create {name}: {openMessage error}")
  | .merge ofErrors intoErrors =>
    .ok (shell.setSink ofErrors (if intoErrors then shell.errors else shell.output))

/-- Applies redirections from left to right. -/
def redirectAll (shell : Shell) : List Redirection → Except Shell Shell
  | [] => .ok shell
  | redirection :: rest => do (← shell.redirect redirection).redirectAll rest

/-- Whether a redirection changes where input comes from. -/
def changesInput : Redirection → Bool
  | .input _ => true
  | _ => false

/-- Puts back where a shell read from and wrote to before. Input that came from the same place stays
consumed. -/
def restore (before after : Shell) (inputChanged : Bool) : Shell :=
  { after with
    output := before.output
    errors := before.errors
    input := if inputChanged then before.input else after.input }

/-- Whether a command is one whose failing redirections end the script. -/
def isSpecial (shell : Shell) : Command → Bool
  | .simple _ words => (shell.expand words).head?.any specialCommands.contains
  | _ => false

/-! ## Loops -/

/-- Whether a loop goes on after a round, and what follows it if not. -/
def roundEnd : Flow → Bool × Flow
  | .breakLoop 0 => (false, .next)
  | .breakLoop (more + 1) => (false, .breakLoop more)
  | .nextRound 0 => (true, .next)
  | .nextRound (more + 1) => (false, .nextRound more)
  | .next | .keepRedirections => (true, .next)
  | flow => (false, flow)

/-- Runs a loop body once for each value. -/
def forValues (name : String) (body : Shell → Flow × Shell) : List String → Shell → Flow × Shell
  | [], shell => (.next, shell)
  | value :: rest, shell =>
    let (flow, shell) := body (shell.set name value)
    match roundEnd flow with
    | (true, _) => forValues name body rest shell
    | (false, flow) => (flow, shell)

/-- Most rounds of a loop. -/
def roundLimit : Nat := 100000

/-- Runs a loop body while, or until, its test succeeds. The loop ends with the status of its last
round. -/
def rounds (untilSuccess : Bool) (test body : Shell → Flow × Shell) :
    (left : Nat) → (status : UInt8) → Shell → Flow × Shell
  | 0, _, shell => shell.leaveWith 2
  | left + 1, status, shell =>
    match test shell with
    | (.next, shell) =>
      if (shell.status = 0) = (untilSuccess = true) then shell.done status
      else
        let (flow, shell) := body shell
        match roundEnd flow with
        | (true, _) => rounds untilSuccess test body left shell.status shell
        | (false, flow) => (flow, shell)
    | (flow, shell) =>
      match roundEnd flow with
      | (true, _) => rounds untilSuccess test body left shell.status shell
      | (false, flow) => (flow, shell)

/-- Runs something inside one more loop. -/
def insideLoop (run : Shell → Flow × Shell) (shell : Shell) : Flow × Shell :=
  let (flow, after) := run { shell with loops := shell.loops + 1 }
  (flow, { after with loops := shell.loops })

/-! ## Commands -/

/-- Runs one command after another. -/
def andThen (next : Shell → Flow × Shell) : Flow × Shell → Flow × Shell
  | (.next, shell) => next shell
  | stopped => stopped

/-- Ends the script after a failure if failures end it and nothing looks at this one. -/
def settle : Flow × Shell → Flow × Shell
  | (.next, shell) =>
    if shell.strict && !shell.tested && shell.status ≠ 0 then (.leave, shell) else (.next, shell)
  | stopped => stopped

/-- Runs something whose outcome is looked at. -/
def asTest (run : Shell → Flow × Shell) (shell : Shell) : Flow × Shell :=
  let (flow, after) := run { shell with tested := true }
  (flow, { after with tested := shell.tested })

/-- Sets variables one after another. -/
def assign (shell : Shell) (assignments : List (String × ScriptWord)) : Shell :=
  assignments.foldl (fun shell (name, value) => shell.set name (shell.expandWhole value)) shell

/-- Runs a simple command. -/
def runSimple (shell : Shell) (assignments : List (String × ScriptWord)) (words : List ScriptWord) :
    Flow × Shell :=
  let assigned := shell.assign assignments
  match shell.expand words with
  | [] => assigned.done 0
  | name :: arguments =>
    let (flow, after) := assigned.builtin name arguments
    if specialCommands.contains name then (flow, after)
    else (flow, restoreBindings shell after (assignments.map (·.1)))

/-- Ends a command that ran in a shell of its own: only what it did to the world stays. -/
def afterChild (shell : Shell) (child : Flow × Shell) : Flow × Shell :=
  let after := { shell with world := child.2.world, input := child.2.input }
  match child.1 with
  | .killed signal => (.killed signal, after)
  | _ => after.done child.2.status

/-- Runs a command. -/
def run : Command → Shell → Flow × Shell
  | .skip, shell => (.next, shell)
  | .onLine line command, shell => run command { shell with line }
  | .simple assignments words, shell => settle (shell.runSimple assignments words)
  | .redirected command redirections, shell =>
    let inputChanged := redirections.any changesInput
    match shell.redirectAll redirections with
    | .ok inner =>
      match run command inner with
      | (.keepRedirections, after) => (.next, after)
      | (flow, after) => (flow, restore shell after inputChanged)
    | .error failed =>
      let after := restore shell failed inputChanged
      if shell.isSpecial command then after.leaveWith 2 else settle (after.done 2)
  | .sequence first second, shell => andThen (run second) (run first shell)
  | .both first second, shell =>
    andThen (fun shell => if shell.status = 0 then run second shell else (.next, shell))
      (asTest (run first) shell)
  | .either first second, shell =>
    andThen (fun shell => if shell.status = 0 then (.next, shell) else run second shell)
      (asTest (run first) shell)
  | .negate command, shell =>
    andThen (fun shell => shell.answer (shell.status ≠ 0)) (asTest (run command) shell)
  | .pipe first second, shell =>
    let (_, left) := run first
      { shell with world := { shell.world with output := "" }, output := .output }
    let between := { left.world with output := shell.world.output }
    let right := run second { shell with world := between, input := left.world.output.toList }
    settle (shell.afterChild (right.1, { right.2 with input := shell.input }))
  | .subshell command, shell => settle (shell.afterChild (run command shell))
  | .conditional test thenBranch elseBranch, shell =>
    andThen (fun shell =>
      if shell.status = 0 then run thenBranch shell else run elseBranch { shell with status := 0 })
      (asTest (run test) shell)
  | .loop untilSuccess test body, shell =>
    insideLoop (rounds untilSuccess (asTest (run test)) (run body) roundLimit 0) shell
  | .forEach name words body, shell =>
    let values := match words with
      | some words => shell.expand words
      | none => shell.arguments
    insideLoop (forValues name (run body) values) { shell with status := 0 }
  | .matching subject patterns body otherwise, shell =>
    let text := (shell.expandWhole subject).toList
    if patterns.any fun pattern => (shell.expandPattern pattern).accepts text then
      run body { shell with status := 0 }
    else run otherwise shell

end Shell

/-- Runs the script with a name on arguments, without input. -/
def runScript (here : Path) (script : String) (text : List Char) (arguments : List String)
    (world : World) : ExitStatus × World :=
  match Script.ofText? text with
  | none => (.exited 2, { world with errors := world.errors ++ s!"{script}: Syntax error\n" })
  | some command =>
    let shell : Shell := {
      world, here, script, arguments
      bindings := [], status := 0, input := [], output := .output, errors := .errors
      line := 1, loops := 0, strict := false, tested := false }
    match shell.run command with
    | (.killed signal, ended) => (.killed signal, ended.world)
    | (_, ended) => (.exited ended.status, ended.world)

end Stacklet.Sandbox
