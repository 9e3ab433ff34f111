import Stacklet.Number.Shortest
import Stacklet.Text.Quoted

/-! # Tokens

The lexical units of the structured language. Punctuation and keywords stand for themselves, names
carry their text, and literals carry their value.
-/

namespace Stacklet

/-- The reserved words. -/
inductive Keyword where
  | kwAnd
  | kwClass
  | kwElse
  | kwFalse
  | kwFor
  | kwFun
  | kwIf
  | kwNil
  | kwOr
  | kwPrint
  | kwReturn
  | kwSuper
  | kwThis
  | kwTrue
  | kwVar
  | kwWhile
deriving DecidableEq, Repr

namespace Keyword

/-- Every keyword once. -/
def all : List Keyword :=
  [kwAnd, kwClass, kwElse, kwFalse, kwFor, kwFun, kwIf, kwNil, kwOr, kwPrint, kwReturn, kwSuper,
    kwThis, kwTrue, kwVar, kwWhile]

/-- How a keyword is written. -/
def text : Keyword → String
  | kwAnd => "and"
  | kwClass => "class"
  | kwElse => "else"
  | kwFalse => "false"
  | kwFor => "for"
  | kwFun => "fun"
  | kwIf => "if"
  | kwNil => "nil"
  | kwOr => "or"
  | kwPrint => "print"
  | kwReturn => "return"
  | kwSuper => "super"
  | kwThis => "this"
  | kwTrue => "true"
  | kwVar => "var"
  | kwWhile => "while"

/-- The keyword that is written so. -/
def ofText? (text : String) : Option Keyword :=
  all.find? (·.text == text)

end Keyword

/-- Punctuation and operators. -/
inductive Symbol where
  | openParen
  | closeParen
  | openCurly
  | closeCurly
  | comma
  | period
  | minus
  | plus
  | semicolon
  | slash
  | times
  | bang
  | bangEqual
  | assign
  | equal
  | greater
  | greaterEqual
  | less
  | lessEqual
deriving DecidableEq, Repr

/-- How a symbol is written. -/
def Symbol.text : Symbol → String
  | openParen => "("
  | closeParen => ")"
  | openCurly => "\x7b"
  | closeCurly => "\x7d"
  | comma => ","
  | period => "."
  | minus => "-"
  | plus => "+"
  | semicolon => ";"
  | slash => "/"
  | times => "*"
  | bang => "!"
  | bangEqual => "!="
  | assign => "="
  | equal => "=="
  | greater => ">"
  | greaterEqual => ">="
  | less => "<"
  | lessEqual => "<="

/-- A lexical unit. -/
inductive Token where
  | name (text : String)
  | keyword (keyword : Keyword)
  | number (value : Binary64)
  | string (value : String)
  | symbol (symbol : Symbol)
  | endOfInput
deriving DecidableEq, Repr

/-- How messages speak of a token. -/
def Token.describe : Token → String
  | name text => s!"identifier `{text}`"
  | keyword word => s!"keyword `{word.text}`"
  | number value => s!"literal `{value.render}`"
  | string value => s!"literal {Text.quotedString value}"
  | symbol mark => s!"`{mark.text}`"
  | endOfInput => "end of input"

end Stacklet
