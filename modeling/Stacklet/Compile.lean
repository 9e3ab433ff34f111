import Stacklet.Assembly.OfTree
import Stacklet.Assembly.OfWords
import Stacklet.Report
import Stacklet.Token.Lexer
import Stacklet.Tree.Parser

/-! # Compilation

A source becomes assembly by one of two front ends. A phase that fails ends the compilation with a
report; nothing of the output remains then. Notes taken on the way tell what was read.
-/

namespace Stacklet

/-- The front ends: tokens and trees, or words. -/
inductive FrontEnd where
  | tree
  | flat
deriving DecidableEq, Repr

namespace FrontEnd

/-- The name of a front end. -/
def name : FrontEnd → String
  | tree => "tree"
  | flat => "flat"

/-- The front end with a name. -/
def ofName? (name : String) : Option FrontEnd :=
  [tree, flat].find? (·.name == name)

end FrontEnd

/-- What is worth noting during a compilation. -/
inductive Note where
  | stray (c : Located Char)
  | tokens (count : Nat)
  | statements (count : Nat)
  | instructions (texts : List String)
deriving DecidableEq, Repr

namespace Note

/-- How much a note matters. -/
inductive Severity where
  | debug
  | warn
deriving DecidableEq, Repr

/-- The name of a severity. -/
def Severity.name : Severity → String
  | debug => "DEBUG"
  | warn => "WARN"

/-- How much a note matters. -/
def severity : Note → Severity
  | stray _ => .warn
  | _ => .debug

/-- What a note says. -/
def render (source : Source) : Note → String
  | stray c =>
    s!"{c.span.renderIn source}: skipping unexpected character {Text.quotedChar c.value}"
  | tokens count => s!"{count} tokens"
  | statements count => s!"{count} top-level statements"
  | instructions texts =>
    let listed := String.intercalate ", " texts
    s!"instructions: [{listed}]"

end Note

/-- Where a compilation fails. -/
inductive CompileError where
  | lexical (errors : List (Located LexError))
  | grammatical (error : Located SyntaxError)
  | emission (error : EmitError)
  | wording (errors : List (Located WordError))
  | structural (error : Located BlockError)
deriving DecidableEq, Repr

namespace CompileError

/-- The heading of the phase. -/
def heading : CompileError → String
  | lexical _ | wording _ => "Lexical error"
  | grammatical _ => "Syntax error"
  | emission _ => "Codegen error"
  | structural _ => "Structural error"

/-- The errors as they are shown. -/
def diagnostics : CompileError → List Diagnostic
  | lexical errors => errors.map fun error => ⟨error.value.message, some error.span⟩
  | grammatical error => [⟨error.value.message, some error.span⟩]
  | emission error => [⟨error.message, error.span?⟩]
  | wording errors => errors.map fun error => ⟨error.value.message, some error.span⟩
  | structural error => [⟨error.value.message, some error.span⟩]

/-- The report of a failed compilation. -/
def report (error : CompileError) : Report :=
  ⟨error.heading, error.diagnostics⟩

end CompileError

/-- The outcome of a compilation and the notes taken. -/
structure Compilation where
  notes : List Note
  result : Except CompileError (List Assembly.Line)

/-- Compiles by way of tokens and a tree. -/
def compileTree (text : List Char) : Compilation :=
  let strays := (Lexer.ofText text).strays.map .stray
  match scan text with
  | .error errors => ⟨strays, .error (.lexical errors)⟩
  | .ok tokens =>
    let read := strays ++ [.tokens tokens.length]
    match parse tokens with
    | .error failure => ⟨read, .error (.grammatical failure.error)⟩
    | .ok statements =>
      let parsed := read ++ [.statements statements.length]
      match Assembly.ofTree statements with
      | ⟨_, some fault⟩ => ⟨parsed, .error (.emission fault)⟩
      | ⟨lines, none⟩ => ⟨parsed, .ok lines⟩

/-- Compiles by way of words and blocks. -/
def compileFlat (text : List Char) : Compilation :=
  match readWords text with
  | .error errors => ⟨[], .error (.wording errors)⟩
  | .ok instructions =>
    match link instructions with
    | .error error => ⟨[], .error (.structural error)⟩
    | .ok linked =>
      ⟨[.instructions (linked.map (·.value.text))], .ok (Assembly.ofWords linked)⟩

/-- Compiles a text with a front end. -/
def compile (text : List Char) : FrontEnd → Compilation
  | .tree => compileTree text
  | .flat => compileFlat text

end Stacklet
