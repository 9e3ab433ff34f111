import Stacklet.Source

/-! # Reports

The errors of one phase, shown under one heading with the line of source each of them is about and
carets under its lexeme.
-/

namespace Stacklet

/-- An error as it is shown. -/
structure Diagnostic where
  message : String
  span : Option Span
deriving DecidableEq, Repr

/-- The errors of a phase under a heading. -/
structure Report where
  heading : String
  diagnostics : List Diagnostic
deriving DecidableEq, Repr

namespace Report

/-- The heading of errors of no particular phase. -/
def anyHeading : String := "error"

/-- A text of one character. -/
def repeated (count : Nat) (c : Char) : String :=
  String.ofList (List.replicate count c)

/-- The number of carets under a lexeme: up to its end, or to the end of its first line, and at
least one. -/
def carets (source : Source) (span : Span) : Nat :=
  let start := span.startIn source
  let stop := span.stopIn source
  let column :=
    if stop.line = start.line then stop.column
    else .ofNat (source.line start.line.toNat).length + 1
  max 1 (column.toNat - start.column.toNat)

/-- The first line of a span, with carets under it. -/
def snippet (source : Source) (span : Span) : String :=
  let start := span.startIn source
  let number := toString start.line
  let margin := repeated number.length ' '
  let line := String.ofList (source.line start.line.toNat)
  let underline := repeated (start.column.toNat - 1) ' ' ++ repeated (carets source span) '^'
  s!" --> {span.renderIn source}\n" ++
  s!"{margin} |\n" ++
  s!"{number} | {line}\n" ++
  s!"{margin} | {underline}\n"

/-- An error under a heading. -/
def entry (source : Source) (heading : String) (diagnostic : Diagnostic) : String :=
  s!"{heading}: {diagnostic.message}\n" ++
  (diagnostic.span.elim "" (snippet source)) ++
  "\n"

/-- The whole report. -/
def render (source : Source) (report : Report) : String :=
  if report.diagnostics.isEmpty then "No errors were reported\n"
  else
    let count := report.diagnostics.length
    let noun := if count = 1 then "error" else "errors"
    String.join (report.diagnostics.map (entry source report.heading)) ++
      s!"Build failed with {count} {noun}\n"

/-- The messages without their places. -/
def messages (report : Report) : List String :=
  report.diagnostics.map (·.message)

end Report

end Stacklet
