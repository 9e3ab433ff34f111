import Stacklet.Source
import Stacklet.Text.Alphabetic
import Stacklet.Text.Numeric
import Stacklet.Token
import Stacklet.Token.Escape

/-! # Reading tokens

A text is cut into pieces, one after the other and without rest: blanks and comments, stray
characters, tokens, and lexemes that are no token. Where a piece stands follows from the pieces
before it. A lexer walks over the pieces of a text and yields its tokens and faults; it warns of
stray characters and passes over blanks.
-/

namespace Stacklet

/-- Why a lexeme is no token. -/
inductive LexError where
  | unterminatedString
  | badEscape (c : Char)
  | danglingEscape
  | badNumber
  | badCharEscape (text : String)
deriving DecidableEq, Repr

namespace LexError

/-- What a string literal with unreadable content reports. -/
def ofEscape : EscapeError → LexError
  | .unknown c => badEscape c
  | .dangling => danglingEscape
  | .badCodePoint text => badCharEscape (String.ofList text)

/-- What is said about the error. -/
def message : LexError → String
  | unterminatedString => "Unterminated string literal"
  | badEscape c => s!"Unknown escape sequence `\\{c}` in string literal"
  | danglingEscape => "Dangling `\\` at the end of a string literal"
  | badNumber => "Number literal is out of range"
  | badCharEscape text => s!"Invalid character escape `\\{text}` in string literal"

end LexError

/-- What a stretch of text is. -/
inductive Piece where
  /-- White space or a comment. -/
  | blank
  /-- A character that starts nothing. -/
  | stray (c : Char)
  | token (token : Token)
  | fault (error : LexError)
deriving DecidableEq, Repr

/-- The first piece of a text: what it is, its lexeme, and the text behind it. -/
structure Cut where
  piece : Piece
  lexeme : List Char
  rest : List Char
deriving DecidableEq, Repr

namespace Cut

/-- The symbol that a character is by itself. -/
def symbol? : Char → Option Symbol
  | '(' => some .openParen
  | ')' => some .closeParen
  | '\x7b' => some .openCurly
  | '\x7d' => some .closeCurly
  | ',' => some .comma
  | '.' => some .period
  | '-' => some .minus
  | '+' => some .plus
  | ';' => some .semicolon
  | '/' => some .slash
  | '*' => some .times
  | '!' => some .bang
  | '=' => some .assign
  | '<' => some .less
  | '>' => some .greater
  | _ => none

/-- The symbol that a symbol becomes with an equals sign behind it. -/
def withEqual? : Symbol → Option Symbol
  | .bang => some .bangEqual
  | .assign => some .equal
  | .less => some .lessEqual
  | .greater => some .greaterEqual
  | _ => none

/-- Characters that only separate tokens. -/
def isBlank (c : Char) : Bool :=
  c = ' ' || c = '\r' || c = '\t' || c = '\n'

/-- Characters that may continue a name. -/
def isNameChar (c : Char) : Bool :=
  Text.isAlphabetic c || Text.isNumeric c || c = '_'

/-- The part of a block comment behind its opening. It ends with a star and the character behind
it, or with a slash and the character before it, whichever comes first, or with the text. -/
def blockComment : List Char → List Char
  | [] => []
  | c :: rest =>
    if c = '*' ∨ rest.head? = some '/' then c :: rest.take 1 else c :: blockComment rest

/-- A cut whose lexeme consists of `c` and the first characters `tail` of the text behind it. -/
def behind (piece : Piece) (c : Char) (tail text : List Char) : Cut :=
  ⟨piece, c :: tail, text.drop tail.length⟩

/-- A comment, or a slash. -/
def slash (text : List Char) : Cut :=
  match text with
  | '/' :: rest => behind .blank '/' ('/' :: rest.takeWhile (· ≠ '\n')) text
  | '*' :: rest => behind .blank '/' ('*' :: blockComment rest) text
  | _ => behind (.token (.symbol .slash)) '/' [] text

/-- A symbol of one or two characters. -/
def operator (c : Char) (symbol : Symbol) (text : List Char) : Cut :=
  match withEqual? symbol, text with
  | some longer, '=' :: _ => behind (.token (.symbol longer)) c ['='] text
  | _, _ => behind (.token (.symbol symbol)) c [] text

/-- What a closed string literal with the given content is. -/
def stringPiece (content : List Char) : Piece :=
  match unescape content with
  | .ok value => .token (.string (String.ofList value))
  | .error error => .fault (.ofEscape error)

/-- A string literal: it ends at the next quote of its own kind, whatever stands before that. -/
def string (quote : Char) (text : List Char) : Cut :=
  let content := text.takeWhile (· ≠ quote)
  match text.dropWhile (· ≠ quote) with
  | [] => behind (.fault .unterminatedString) quote content text
  | _ :: _ => behind (stringPiece content) quote (content ++ [quote]) text

/-- The point and the digits behind it, when there are any. -/
def fraction : List Char → List Char
  | '.' :: rest => if (rest.takeWhile Char.isDigit).isEmpty then [] else
      '.' :: rest.takeWhile Char.isDigit
  | _ => []

/-- What a number literal with the given digits before and behind its point is. -/
def numberPiece (whole fraction : List Char) : Piece :=
  (Binary64.ofDigits? whole fraction).elim (.fault .badNumber) fun value => .token (.number value)

/-- A number literal: digits, and a fraction if digits follow the point. -/
def number (c : Char) (text : List Char) : Cut :=
  let digits := text.takeWhile Char.isDigit
  let decimals := fraction (text.drop digits.length)
  behind (numberPiece (c :: digits) (decimals.drop 1)) c (digits ++ decimals) text

/-- The token that a word is. -/
def wordToken (word : List Char) : Token :=
  match Keyword.ofText? (String.ofList word) with
  | some keyword => .keyword keyword
  | none => .name (String.ofList word)

/-- A keyword or a name. -/
def word (c : Char) (text : List Char) : Cut :=
  let tail := text.takeWhile isNameChar
  behind (.token (wordToken (c :: tail))) c tail text

/-- The first piece of the text `c :: text`. -/
def first (c : Char) (text : List Char) : Cut :=
  match symbol? c with
  | some .slash => slash text
  | some symbol => operator c symbol text
  | none =>
    if isBlank c then behind .blank c [] text
    else if c = '"' ∨ c = '\'' then string c text
    else if c.isDigit then number c text
    else if Text.isAlphabetic c then word c text
    else behind (.stray c) c [] text

theorem behind_rest_length (piece : Piece) (c : Char) (tail text : List Char) :
    (behind piece c tail text).rest.length ≤ text.length := by
  simp [behind]

theorem first_rest_length (c : Char) (text : List Char) :
    (first c text).rest.length ≤ text.length := by
  unfold first slash operator string number word
  repeat' split
  all_goals exact behind_rest_length _ _ _ _

end Cut

/-- The pieces of a text with their lexemes. -/
def pieces : List Char → List (Piece × List Char)
  | [] => []
  | c :: text =>
    let cut := Cut.first c text
    (cut.piece, cut.lexeme) :: pieces cut.rest
termination_by text => text.length
decreasing_by
  have := Cut.first_rest_length c text
  simp only [List.length_cons]
  omega

/-- The span of a piece: tokens carry the line on which they end, all else the line on which it
starts. -/
def Piece.span (piece : Piece) (line offset : Nat) (lexeme : List Char) : Span where
  line := match piece with
    | .token _ => line + newlines lexeme
    | _ => line
  start := offset
  stop := offset + byteLength lexeme

/-- Places pieces one after the other. -/
def locate (line offset : Nat) : List (Piece × List Char) → List (Located Piece)
  | [] => []
  | (piece, lexeme) :: more =>
    ⟨piece, piece.span line offset lexeme⟩ ::
      locate (line + newlines lexeme) (offset + byteLength lexeme) more

/-- What a lexer yields. -/
inductive Item where
  | token (token : Located Token)
  | fault (error : Located LexError)
deriving DecidableEq, Repr

/-- A place in a text that is read token by token: the pieces still to come, the empty span at the
end of the text, and whether that end was yielded. -/
structure Lexer where
  pending : List (Located Piece)
  finish : Span
  finished : Bool
deriving Repr

namespace Lexer

/-- The lexer at the start of a text. -/
def ofText (text : List Char) : Lexer where
  pending := locate 1 0 (pieces text)
  finish := ⟨1 + newlines text, byteLength text, byteLength text⟩
  finished := false

/-- One step of a lexer: the stray characters passed over, what was yielded, and the lexer then.
Behind the end nothing is yielded. -/
structure Step where
  strays : List (Located Char)
  item : Option Item
  lexer : Lexer

/-- The step of a lexer that has not yet yielded the end. -/
def stepFrom (finish : Span) : List (Located Piece) → Step
  | [] => ⟨[], some (.token ⟨.endOfInput, finish⟩), ⟨[], finish, true⟩⟩
  | ⟨piece, span⟩ :: pending =>
    match piece with
    | .blank => stepFrom finish pending
    | .stray c =>
      let step := stepFrom finish pending
      { step with strays := ⟨c, span⟩ :: step.strays }
    | .token token => ⟨[], some (.token ⟨token, span⟩), ⟨pending, finish, false⟩⟩
    | .fault error => ⟨[], some (.fault ⟨error, span⟩), ⟨pending, finish, false⟩⟩

/-- Yields the next token or fault. -/
def next (lexer : Lexer) : Step :=
  if lexer.finished then ⟨[], none, lexer⟩ else stepFrom lexer.finish lexer.pending

/-- The stray characters still to come. -/
def strays (lexer : Lexer) : List (Located Char) :=
  lexer.pending.filterMap fun ⟨piece, span⟩ =>
    match piece with
    | .stray c => some ⟨c, span⟩
    | _ => none

/-- The faults still to come. -/
def faults (lexer : Lexer) : List (Located LexError) :=
  lexer.pending.filterMap fun ⟨piece, span⟩ =>
    match piece with
    | .fault error => some ⟨error, span⟩
    | _ => none

/-- The tokens still to come, the end of input included. -/
def tokens (lexer : Lexer) : List (Located Token) :=
  let read := lexer.pending.filterMap fun ⟨piece, span⟩ =>
    match piece with
    | .token token => some ⟨token, span⟩
    | _ => none
  if lexer.finished then read else read ++ [⟨.endOfInput, lexer.finish⟩]

/-- All that is still to come: the tokens, or every fault if there is one. -/
def exhaust (lexer : Lexer) : Except (List (Located LexError)) (List (Located Token)) :=
  if lexer.faults.isEmpty then .ok lexer.tokens else .error lexer.faults

end Lexer

/-- The tokens of a whole text, or all its faults. -/
def scan (text : List Char) : Except (List (Located LexError)) (List (Located Token)) :=
  (Lexer.ofText text).exhaust

end Stacklet
