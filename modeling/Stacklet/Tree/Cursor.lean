import Stacklet.Source
import Stacklet.Token

/-! # Reading a token stream

A cursor stands in a token stream. Behind the end of a stream its last token is seen again and
again, and the end of input is never passed. A reader takes a cursor and gives a value and the
cursor then, or fails; a failure also says where recovery from it ended up.
-/

namespace Stacklet

/-- The lists whose length is bounded. -/
inductive Listing where
  | parameters
  | arguments
deriving DecidableEq, Repr

/-- What messages call the entries of a list. -/
def Listing.text : Listing → String
  | parameters => "parameters"
  | arguments => "arguments"

/-- Why a token stream is no program. -/
inductive SyntaxError where
  | unexpectedToken (expected : String) (found : Token)
  | expectedExpr (found : Token)
  | invalidAssignmentTarget
  | tooMany (listing : Listing)
  | tooDeep
deriving DecidableEq, Repr

/-- Most parameters of a function and most arguments of a call. -/
def maxListed : Nat := 255

/-- Most levels of nesting. -/
def maxDepth : Nat := 128

/-- What is said about the error. -/
def SyntaxError.message : SyntaxError → String
  | unexpectedToken expected found => s!"Expected {expected}, found {found.describe}"
  | expectedExpr found => s!"Expected an expression, found {found.describe}"
  | invalidAssignmentTarget => "Invalid assignment target"
  | tooMany listing => s!"Can't have more than {maxListed} {listing.text}"
  | tooDeep => s!"Nesting is deeper than {maxDepth} levels"

/-- A place in a token stream: the tokens ahead, the last token of the stream, and the token passed
most recently. -/
structure Cursor where
  rest : List (Located Token)
  last : Located Token
  previous : Located Token
deriving DecidableEq, Repr

namespace Cursor

/-- The token ahead. -/
def peek (cursor : Cursor) : Located Token :=
  cursor.rest.headD cursor.last

/-- Whether the end of input is ahead. -/
def atEnd (cursor : Cursor) : Bool :=
  cursor.peek.value = .endOfInput

/-- Passes the token ahead, unless it is the end of input. -/
def advance (cursor : Cursor) : Cursor :=
  if cursor.atEnd then { cursor with previous := cursor.peek }
  else { cursor with rest := cursor.rest.tail, previous := cursor.peek }

/-- Whether a statement is likely to begin with a token. -/
def startsStatement : Token → Bool
  | .keyword .kwClass | .keyword .kwFun | .keyword .kwVar | .keyword .kwFor | .keyword .kwIf
  | .keyword .kwWhile | .keyword .kwPrint | .keyword .kwReturn => true
  | _ => false

/-- Whether recovery may stop here: at the end, behind a semicolon, or before a statement. -/
def atBoundary (cursor : Cursor) : Bool :=
  cursor.atEnd || cursor.previous.value = .symbol .semicolon || startsStatement cursor.peek.value

/-- Skips up to `count` tokens to a boundary. -/
def skipToBoundary : (count : Nat) → Cursor → Option Cursor
  | 0, cursor => if cursor.atBoundary then some cursor else none
  | count + 1, cursor =>
    if cursor.atBoundary then some cursor else cursor.advance.skipToBoundary count

/-- Passes a token and skips to a boundary. When the tokens ahead hold none, the last token of the
stream decides: it is met again for ever, so two looks at it are enough. -/
def synchronize (cursor : Cursor) : Option Cursor :=
  cursor.advance.skipToBoundary (cursor.rest.length + 2)

end Cursor

/-- What a reader comes to. -/
inductive Outcome (α : Type) where
  | done (value : α) (cursor : Cursor)
  /-- A failure, and where recovery from it stands; nowhere when it never ends. -/
  | failed (error : Located SyntaxError) (recovery : Option Cursor)
  /-- The bound on recursion was too small for the stream. -/
  | unfinished

/-- A reader of token streams. -/
def Reader (α : Type) : Type :=
  Cursor → Outcome α

namespace Reader

variable {α β : Type}

/-- Reads nothing. -/
@[inline] protected def pure (value : α) : Reader α :=
  fun cursor => .done value cursor

/-- Reads one thing after another. -/
@[inline] protected def bind (first : Reader α) (next : α → Reader β) : Reader β :=
  fun cursor =>
    match first cursor with
    | .done value cursor => next value cursor
    | .failed error recovery => .failed error recovery
    | .unfinished => .unfinished

instance : Monad Reader where
  pure := Reader.pure
  bind := Reader.bind

@[simp] theorem pure_apply (value : α) (cursor : Cursor) :
    (pure value : Reader α) cursor = .done value cursor := rfl

theorem bind_apply (first : Reader α) (next : α → Reader β) (cursor : Cursor) :
    (first >>= next) cursor =
      match first cursor with
      | .done value cursor => next value cursor
      | .failed error recovery => .failed error recovery
      | .unfinished => .unfinished := rfl

/-- Fails at a place. -/
def failAt (error : SyntaxError) (span : Span) : Reader α :=
  fun cursor => .failed ⟨error, span⟩ (some cursor)

/-- Fails at the token ahead. -/
def fail (error : SyntaxError) : Reader α :=
  fun cursor => failAt error cursor.peek.span cursor

/-- Gives up for want of fuel. -/
def unfinished : Reader α :=
  fun _ => .unfinished

/-- The token ahead. -/
def peek : Reader Token :=
  fun cursor => .done cursor.peek.value cursor

/-- Passes the token ahead. -/
def next : Reader (Located Token) :=
  fun cursor => .done cursor.peek cursor.advance

/-- The place of the token passed most recently. -/
def previousSpan : Reader Span :=
  fun cursor => .done cursor.previous.span cursor

/-- Whether a token is ahead. -/
def isAhead (token : Token) : Reader Bool :=
  fun cursor => .done (cursor.peek.value = token) cursor

/-- Passes a token if it is ahead, and says whether it was. -/
def eat (token : Token) : Reader Bool :=
  fun cursor =>
    if cursor.peek.value = token then .done true cursor.advance else .done false cursor

/-- Fails because of the token ahead. -/
def unexpected (expected : String) : Reader α :=
  fun cursor => fail (.unexpectedToken expected cursor.peek.value) cursor

/-- Passes a token that has to be ahead. -/
def expect (token : Token) (expected : String) : Reader (Located Token) :=
  fun cursor =>
    if cursor.peek.value = token then next cursor else unexpected expected cursor

/-- Passes a symbol that has to be ahead. -/
def expectSymbol (symbol : Symbol) (expected : String) : Reader (Located Token) :=
  expect (.symbol symbol) expected

/-- Passes a name that has to be ahead. -/
def expectName (expected : String) : Reader (Located String) :=
  fun cursor =>
    match cursor.peek.value with
    | .name text => .done ⟨text, cursor.peek.span⟩ cursor.advance
    | _ => unexpected expected cursor

/-- One level of nesting further in. -/
def nested (read : (room : Nat) → Reader α) : (room : Nat) → Reader α
  | 0 => fail .tooDeep
  | room + 1 => read room

/-- Recovers from a failure of the reader before passing it on. -/
def recovering (read : Reader α) : Reader α :=
  fun cursor =>
    match read cursor with
    | .failed error recovery => .failed error (recovery.bind Cursor.synchronize)
    | outcome => outcome

/-- Reads items until the stop is ahead. -/
def collect (stop : Cursor → Bool) (item : Reader α) : (fuel : Nat) → (read : List α) →
    Reader (List α)
  | 0, _ => unfinished
  | fuel + 1, read => fun cursor =>
    if stop cursor then .done read.reverse cursor
    else (item >>= fun value => collect stop item fuel (value :: read)) cursor

/-- Reads one or more items with commas between them, within the bound of the listing. -/
def separated (listing : Listing) (item : Reader α) : (fuel : Nat) → (read : List α) →
    Reader (List α)
  | 0, _ => unfinished
  | fuel + 1, read =>
    if maxListed ≤ read.length then fail (.tooMany listing)
    else do
      let value ← item
      if ← eat (.symbol .comma) then separated listing item fuel (value :: read)
      else return (value :: read).reverse

end Reader

end Stacklet
