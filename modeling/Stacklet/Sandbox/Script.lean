/-! # Command scripts

The part of the command language that stand-ins for external programs are written in: simple
commands with quoting, parameters and redirections, lists, groups, conditionals, choices and loops.
A script is read into a tree; what cannot be read is no script.
-/

namespace Stacklet.Sandbox

/-- A part of a word. -/
inductive Part where
  | text (text : List Char) (quoted : Bool)
  | parameter (name : String) (quoted : Bool)
deriving DecidableEq, Repr

/-- A word before its expansion. -/
abbrev ScriptWord := List Part

/-- A change of where a command reads from or writes to. -/
inductive Redirection where
  | input (source : ScriptWord)
  /-- A file that takes the output or the errors of a command. -/
  | output (ofErrors append : Bool) (target : ScriptWord)
  /-- Errors go where output goes, or output where errors go. -/
  | merge (ofErrors intoErrors : Bool)
deriving DecidableEq, Repr

/-- Commands. -/
inductive Command where
  | skip
  /-- A command that starts on a line of the script. -/
  | onLine (line : Nat) (command : Command)
  /-- Assignments, which last as long as the command behind them if there is one. -/
  | simple (assignments : List (String × ScriptWord)) (words : List ScriptWord)
  | redirected (command : Command) (redirections : List Redirection)
  | sequence (first second : Command)
  | both (first second : Command)
  | either (first second : Command)
  | negate (command : Command)
  | pipe (first second : Command)
  | subshell (command : Command)
  | conditional (test thenBranch elseBranch : Command)
  /-- A loop while its test succeeds, or until it does. -/
  | loop (untilSuccess : Bool) (test body : Command)
  /-- A loop over words, or over the arguments of the script. -/
  | forEach (name : String) (words : Option (List ScriptWord)) (body : Command)
  /-- A command for subjects that match one of some patterns, and another for all else. -/
  | matching (subject : ScriptWord) (patterns : List ScriptWord) (body otherwise : Command)
deriving Repr

namespace Script

/-! ## Lexemes -/

/-- Units of a script. -/
inductive Lexeme where
  /-- A word and the line on which it ends. -/
  | word (line : Nat) (word : ScriptWord)
  | mark (mark : String)
  /-- A redirection sign, with the number before it if there is one. -/
  | redirect (descriptor : Option Nat) (sign : String)
deriving DecidableEq, Repr

/-- Characters that end a word outside quotes. -/
def endsWord (c : Char) : Bool :=
  c = ' ' || c = '\t' || c = '\n' || c = ';' || c = '&' || c = '|' || c = '(' || c = ')' ||
    c = '<' || c = '>'

/-- Characters of names. -/
def isNameChar (c : Char) : Bool :=
  c.isAlphanum || c = '_'

/-- Parameters whose name is one special character or digit. -/
def isShortParameter (c : Char) : Bool :=
  c.isDigit || c = '#' || c = '@' || c = '*' || c = '?' || c = '$'

/-- Reads a parameter behind its dollar sign; a dollar sign before anything else is itself. -/
def parameter (quoted : Bool) : List Char → Option (Part × List Char)
  | '\x7b' :: rest =>
    let name := rest.takeWhile (· ≠ '\x7d')
    match rest.dropWhile (· ≠ '\x7d') with
    | _ :: rest =>
      let isShort := name.length = 1 && name.all isShortParameter
      if !name.isEmpty && (name.all isNameChar || isShort) then
        some (.parameter (String.ofList name) quoted, rest)
      else none
    | [] => none
  | '(' :: _ => none
  | c :: rest =>
    if isShortParameter c then some (.parameter c.toString quoted, rest)
    else if c.isAlpha || c = '_' then
      some (.parameter (String.ofList (c :: rest.takeWhile isNameChar)) quoted,
        rest.dropWhile isNameChar)
    else some (.text ['$'] quoted, c :: rest)
  | [] => some (.text ['$'] quoted, [])

/-- Reads up to the closing double quote. -/
def doubleQuoted : (fuel : Nat) → List Char → Option (ScriptWord × List Char)
  | 0, _ => none
  | _ + 1, [] => none
  | fuel + 1, c :: rest => do
    if c = '"' then return ([.text [] true], rest)
    else if c = '$' then
      let (part, rest) ← parameter true rest
      let (parts, rest) ← doubleQuoted fuel rest
      return (part :: parts, rest)
    else if c = '\\' then
      match rest with
      | [] => none
      | next :: rest =>
        let (parts, rest) ← doubleQuoted fuel rest
        let text := if next = '"' || next = '$' || next = '\\' || next = '`' then [next]
          else if next = '\n' then [] else ['\\', next]
        return (.text text true :: parts, rest)
    else
      let (parts, rest) ← doubleQuoted fuel rest
      return (.text [c] true :: parts, rest)

/-- Reads a word up to the character that ends it. -/
def word : (fuel : Nat) → List Char → Option (ScriptWord × List Char)
  | 0, _ => none
  | _ + 1, [] => some ([], [])
  | fuel + 1, c :: rest => do
    if endsWord c then return ([], c :: rest)
    else if c = '\'' then
      let text := rest.takeWhile (· ≠ '\'')
      let behind ← (rest.dropWhile (· ≠ '\'')).tail?
      let (parts, rest) ← word fuel behind
      return (.text text true :: parts, rest)
    else if c = '"' then
      let (quoted, rest) ← doubleQuoted fuel rest
      let (parts, rest) ← word fuel rest
      return (quoted ++ parts, rest)
    else if c = '$' then
      let (part, rest) ← parameter false rest
      let (parts, rest) ← word fuel rest
      return (part :: parts, rest)
    else if c = '\\' then
      match rest with
      | [] => return ([.text ['\\'] true], [])
      | next :: rest =>
        let (parts, rest) ← word fuel rest
        return (if next = '\n' then parts else .text [next] true :: parts, rest)
    else
      let (parts, rest) ← word fuel rest
      return (.text [c] false :: parts, rest)

/-- The sign that a text starts with, longest first. -/
def sign? (signs : List String) (text : List Char) : Option (String × List Char) :=
  (signs.find? fun sign => sign.toList.isPrefixOf text).map fun sign =>
    (sign, text.drop sign.length)

/-- Signs between commands. -/
def marks : List String :=
  ["&&", "||", ";;", "\n", ";", "&", "|", "(", ")"]

/-- Signs of redirection. -/
def redirectSigns : List String :=
  [">>", ">&", "<&", "<<", ">", "<"]

/-- The lexemes of a script from a line on. -/
def lexemes : (fuel line : Nat) → List Char → Option (List Lexeme)
  | 0, _, _ => none
  | _ + 1, _, [] => some []
  | fuel + 1, line, c :: rest =>
    if c = ' ' || c = '\t' then lexemes fuel line rest
    else if c = '#' then lexemes fuel line (rest.dropWhile (· ≠ '\n'))
    else
      let text := c :: rest
      let digits := text.takeWhile Char.isDigit
      match sign? redirectSigns (text.drop digits.length), sign? marks text with
      | some (sign, behind), _ =>
        let descriptor := (String.ofList digits).toNat?
        (lexemes fuel line behind).map (.redirect descriptor sign :: ·)
      | none, some (mark, behind) =>
        let line := if mark = "\n" then line + 1 else line
        (lexemes fuel line behind).map (.mark mark :: ·)
      | none, none =>
        match word (text.length + 1) text with
        | some (parts, behind) =>
          let line := line + (text.count '\n' - behind.count '\n')
          (lexemes fuel line behind).map (.word line parts :: ·)
        | none => none

/-! ## Commands -/

/-- The text of a part without quotes and parameters. -/
def bareText? : Part → Option (List Char)
  | .text text false => some text
  | _ => none

/-- The text of a word without quotes and parameters. -/
def bare? (parts : ScriptWord) : Option String := do
  let texts ← parts.mapM bareText?
  return String.ofList texts.flatten

/-- Whether a lexeme is a reserved word. -/
def isReserved (reserved : String) : Lexeme → Bool
  | .word _ parts => bare? parts = some reserved
  | _ => false

/-- A command that starts with a lexeme. -/
def startingAt (lexeme : Lexeme) (command : Command) : Command :=
  match lexeme with
  | .word line _ => .onLine line command
  | _ => command

/-- Words that end a list of commands. -/
def closers : List String :=
  ["then", "else", "elif", "fi", "do", "done", "esac", "\x7d"]

/-- Whether a list of commands ends before a lexeme. -/
def closesList (lexeme : Lexeme) : Bool :=
  lexeme = .mark ")" || lexeme = .mark ";;" || closers.any (isReserved · lexeme)

/-- Passes a reserved word. -/
def expect (reserved : String) : List Lexeme → Option (List Lexeme)
  | lexeme :: rest => if isReserved reserved lexeme then some rest else none
  | [] => none

/-- Passes separators. -/
def skipSeparators (lexemes : List Lexeme) : List Lexeme :=
  lexemes.dropWhile fun lexeme => lexeme = .mark ";" || lexeme = .mark "\n" || lexeme = .mark "&"

/-- Passes newlines. -/
def skipNewlines (lexemes : List Lexeme) : List Lexeme :=
  lexemes.dropWhile (· = .mark "\n")

/-- The redirection that a sign makes of a word. -/
def redirection? (descriptor : Option Nat) (sign : String) (target : ScriptWord) :
    Option Redirection :=
  match sign, descriptor.getD (if sign = "<" then 0 else 1), bare? target with
  | "<", 0, _ => some (.input target)
  | ">", 1, _ => some (.output false false target)
  | ">", 2, _ => some (.output true false target)
  | ">>", 1, _ => some (.output false true target)
  | ">>", 2, _ => some (.output true true target)
  | ">&", 1, some "2" => some (.merge false true)
  | ">&", 2, some "1" => some (.merge true false)
  | ">&", 1, some "1" => some (.merge false false)
  | ">&", 2, some "2" => some (.merge true true)
  | _, _, _ => none

/-- The words and redirections ahead. -/
def arguments : List Lexeme → Option (List ScriptWord × List Redirection × List Lexeme)
  | .word _ parts :: rest => do
    let (words, redirections, rest) ← arguments rest
    return (parts :: words, redirections, rest)
  | .redirect descriptor sign :: .word _ target :: rest => do
    let redirection ← redirection? descriptor sign target
    let (words, redirections, rest) ← arguments rest
    return (words, redirection :: redirections, rest)
  | .redirect .. :: _ => none
  | rest => some ([], [], rest)

/-- The redirections ahead, with no words among them. -/
def redirections (lexemes : List Lexeme) : Option (List Redirection × List Lexeme) :=
  match arguments lexemes with
  | some ([], found, rest) => some (found, rest)
  | _ => none

/-- A command with redirections. -/
def withRedirections (command : Command) (found : List Redirection) : Command :=
  if found.isEmpty then command else .redirected command found

/-- The name and value of an assignment. -/
def assignment? (parts : ScriptWord) : Option (String × ScriptWord) :=
  let isPlain : Part → Bool
    | .text [c] false => isNameChar c
    | _ => false
  match parts.dropWhile isPlain with
  | .text ['='] false :: value => do
    let name ← bare? (parts.takeWhile isPlain)
    if name.isEmpty then none else some (name, value)
  | _ => none

/-- The command that words are: first assignments, then a name with its arguments. -/
def ofWords (words : List ScriptWord) : Command :=
  let isAssignment := fun parts => (assignment? parts).isSome
  .simple ((words.takeWhile isAssignment).filterMap assignment?) (words.dropWhile isAssignment)

/-- The patterns of a choice, up to the mark behind them. -/
def patterns : List Lexeme → Option (List ScriptWord × List Lexeme)
  | .word _ parts :: .mark ")" :: rest => some ([parts], rest)
  | .word _ parts :: .mark "|" :: rest => do
    let (others, rest) ← patterns rest
    return (parts :: others, rest)
  | _ => none

/-- What a command or list is read into, with the lexemes behind it. -/
abbrev Parsed := Option (Command × List Lexeme)

mutual

/-- Commands up to a word that ends their list, or to the end. -/
def list : (fuel : Nat) → List Lexeme → Parsed
  | 0, _ => none
  | fuel + 1, lexemes =>
    match skipSeparators lexemes with
    | [] => some (.skip, [])
    | lexeme :: rest =>
      if closesList lexeme then some (.skip, lexeme :: rest)
      else do
        let (first, rest) ← chain fuel (lexeme :: rest)
        let (others, rest) ← list fuel rest
        return (.sequence first others, rest)

/-- Pipelines with `&&` and `||` between them. -/
def chain : (fuel : Nat) → List Lexeme → Parsed
  | 0, _ => none
  | fuel + 1, lexemes => do
    let (first, rest) ← pipeline fuel lexemes
    chainAfter fuel first rest

/-- What follows the first pipeline of a chain. -/
def chainAfter : (fuel : Nat) → Command → List Lexeme → Parsed
  | 0, _, _ => none
  | fuel + 1, first, .mark "&&" :: rest => do
    let (second, rest) ← pipeline fuel (skipNewlines rest)
    chainAfter fuel (.both first second) rest
  | fuel + 1, first, .mark "||" :: rest => do
    let (second, rest) ← pipeline fuel (skipNewlines rest)
    chainAfter fuel (.either first second) rest
  | _ + 1, first, rest => some (first, rest)

/-- Commands with `|` between them, perhaps negated. -/
def pipeline : (fuel : Nat) → List Lexeme → Parsed
  | 0, _ => none
  | fuel + 1, lexemes => do
    match expect "!" lexemes with
    | some rest =>
      let (command, rest) ← pipeline fuel rest
      return (.negate command, rest)
    | none =>
      let (first, rest) ← command fuel lexemes
      match rest with
      | .mark "|" :: rest =>
        let (second, rest) ← pipeline fuel (skipNewlines rest)
        return (.pipe first second, rest)
      | rest => return (first, rest)

/-- One command with its redirections. -/
def command : (fuel : Nat) → List Lexeme → Parsed
  | 0, _ => none
  | _ + 1, [] => none
  | fuel + 1, lexeme :: rest => do
    if lexeme = .mark "(" then
      let (body, rest) ← list fuel rest
      let .mark ")" :: rest := rest | none
      let (found, rest) ← redirections rest
      return (withRedirections (.subshell body) found, rest)
    else if isReserved "\x7b" lexeme then
      let (body, rest) ← list fuel rest
      let (found, rest) ← redirections (← expect "\x7d" rest)
      return (withRedirections body found, rest)
    else if isReserved "if" lexeme then
      let (body, rest) ← conditional fuel rest
      let (found, rest) ← redirections rest
      return (withRedirections body found, rest)
    else if isReserved "while" lexeme || isReserved "until" lexeme then
      let (test, rest) ← list fuel rest
      let (body, rest) ← list fuel (← expect "do" rest)
      let (found, rest) ← redirections (← expect "done" rest)
      let loop := .loop (isReserved "until" lexeme) test body
      return (startingAt lexeme (withRedirections loop found), rest)
    else if isReserved "for" lexeme then
      let .word _ named :: rest := rest | none
      let name ← bare? named
      let (words, rest) ← match expect "in" rest with
        | some rest => do
          let (words, [], rest) ← arguments rest | none
          pure (some words, rest)
        | none => some (none, rest)
      let (body, rest) ← list fuel (← expect "do" (skipSeparators rest))
      let (found, rest) ← redirections (← expect "done" rest)
      return (startingAt lexeme (withRedirections (.forEach name words body) found), rest)
    else if isReserved "case" lexeme then
      let .word _ subject :: rest := rest | none
      let (body, rest) ← choices fuel subject (← expect "in" (skipNewlines rest))
      let (found, rest) ← redirections rest
      return (startingAt lexeme (withRedirections body found), rest)
    else
      let (words, found, rest) ← arguments (lexeme :: rest)
      if words.isEmpty && found.isEmpty then none
      else return (startingAt lexeme (withRedirections (ofWords words) found), rest)

/-- A conditional behind its `if` or `elif`. -/
def conditional : (fuel : Nat) → List Lexeme → Parsed
  | 0, _ => none
  | fuel + 1, lexemes => do
    let (test, rest) ← list fuel lexemes
    let (thenBranch, rest) ← list fuel (← expect "then" rest)
    match expect "elif" rest, expect "else" rest with
    | some rest, _ =>
      let (elseBranch, rest) ← conditional fuel rest
      return (.conditional test thenBranch elseBranch, rest)
    | none, some rest =>
      let (elseBranch, rest) ← list fuel rest
      return (.conditional test thenBranch elseBranch, ← expect "fi" rest)
    | none, none => return (.conditional test thenBranch .skip, ← expect "fi" rest)

/-- The choices for a subject, up to their closing word. -/
def choices : (fuel : Nat) → ScriptWord → List Lexeme → Parsed
  | 0, _, _ => none
  | fuel + 1, subject, lexemes => do
    let lexemes := skipNewlines lexemes
    match expect "esac" lexemes with
    | some rest => return (.simple [] [], rest)
    | none =>
      let (found, rest) ← patterns (lexemes.dropWhile (· = .mark "("))
      let (body, rest) ← list fuel rest
      let rest := match rest with
        | .mark ";;" :: rest => rest
        | rest => rest
      let (otherwise, rest) ← choices fuel subject rest
      return (.matching subject found body otherwise, rest)

end

/-- The command that a script is, if it can be read to its end. -/
def ofText? (text : List Char) : Option Command := do
  let found ← lexemes (text.length + 1) 1 text
  let (command, []) ← list (8 * found.length + 8) found | none
  return command

end Script

end Stacklet.Sandbox
