import Stacklet.Number.Shortest
import Stacklet.Source
import Stacklet.Text.Quoted

/-! # Trees of the structured language

Expressions and statements as the grammar has them, more than code can be made of. Every node knows
the place that messages about it point to, if it comes from the text at all.
-/

namespace Stacklet

/-- Operators between two values. -/
inductive BinaryOp where
  | add
  | sub
  | mul
  | div
  | equal
  | notEqual
  | less
  | lessEqual
  | greater
  | greaterEqual
deriving DecidableEq, Repr

/-- How an operator is written. -/
def BinaryOp.text : BinaryOp → String
  | add => "+"
  | sub => "-"
  | mul => "*"
  | div => "/"
  | equal => "=="
  | notEqual => "!="
  | less => "<"
  | lessEqual => "<="
  | greater => ">"
  | greaterEqual => ">="

/-- Operators before one value. -/
inductive UnaryOp where
  | not
  | negate
deriving DecidableEq, Repr

/-- Operators that may leave their right side alone. -/
inductive LogicalOp where
  | and
  | or
deriving DecidableEq, Repr

/-- Constant values. -/
inductive Literal where
  | number (value : Binary64)
  | string (value : String)
  | bool (value : Bool)
  | nil
deriving DecidableEq, Repr

/-- How messages show a constant. -/
def Literal.render : Literal → String
  | number value => value.render
  | string value => Text.quotedString value
  | bool true => "true"
  | bool false => "false"
  | nil => "nil"

mutual

/-- Expressions. -/
inductive Expr where
  | binary (left : Expr) (op : Located BinaryOp) (right : Expr)
  | unary (op : Located UnaryOp) (operand : Expr)
  /-- A constant; one that stands for something left out has no place. -/
  | literal (value : Literal) (span : Option Span)
  | grouping (inner : Expr)
  | var (name : Located String)
  | assign (name : Located String) (value : Expr)
  | logical (left : Expr) (op : Located LogicalOp) (right : Expr)
  /-- A call, with the place of its closing parenthesis. -/
  | call (callee : Expr) (paren : Span) (arguments : List Expr)
  | lambda (parameters : List (Located String)) (body : List Stmt)

/-- Statements and declarations. -/
inductive Stmt where
  | expression (expr : Expr)
  | print (expr : Expr)
  | varDef (name : Located String) (initializer : Option Expr)
  | block (body : List Stmt)
  | ifThen (condition : Expr) (thenBranch : Stmt)
  | ifElse (condition : Expr) (thenBranch elseBranch : Stmt)
  | whileLoop (condition : Expr) (body : Stmt)
  | funDef (function : Function)
  /-- A return, with the place of its keyword. -/
  | ret (keyword : Span) (value : Option Expr)
  | classDef (name : Located String) (methods : List Function)

/-- A named function or method. -/
inductive Function where
  | mk (name : Located String) (parameters : List (Located String)) (body : List Stmt)

end

namespace Function

/-- The name of a function. -/
def name : Function → Located String
  | mk name _ _ => name

/-- The parameters of a function. -/
def parameters : Function → List (Located String)
  | mk _ parameters _ => parameters

/-- The statements of a function. -/
def body : Function → List Stmt
  | mk _ _ body => body

end Function

mutual

/-- The place that stands for an expression in messages. -/
def Expr.span? : Expr → Option Span
  | .binary _ op _ => some op.span
  | .unary op _ => some op.span
  | .literal _ span => span
  | .grouping inner => inner.span?
  | .var name => some name.span
  | .assign name _ => some name.span
  | .logical _ op _ => some op.span
  | .call _ paren _ => some paren
  | .lambda [] body => firstSpan? body
  | .lambda (parameter :: _) _ => some parameter.span

/-- The place that stands for a statement in messages. -/
def Stmt.span? : Stmt → Option Span
  | .expression expr => expr.span?
  | .print expr => expr.span?
  | .varDef name _ => some name.span
  | .block body => firstSpan? body
  | .ifThen condition _ => condition.span?
  | .ifElse condition _ _ => condition.span?
  | .whileLoop condition _ => condition.span?
  | .funDef function => some function.name.span
  | .ret keyword _ => some keyword
  | .classDef name _ => some name.span

/-- The place of the first statement that has one. -/
def firstSpan? : List Stmt → Option Span
  | [] => none
  | stmt :: rest =>
    match stmt.span? with
    | some span => some span
    | none => firstSpan? rest

end

/-- What messages call an expression. -/
def Expr.construct : Expr → String
  | .binary .. => "binary expression"
  | .unary .. => "unary expression"
  | .literal .. => "literal"
  | .grouping .. => "grouping"
  | .var .. => "variable"
  | .assign .. => "assignment"
  | .logical .. => "logical expression"
  | .call .. => "call"
  | .lambda .. => "lambda"

/-- What messages call a statement. -/
def Stmt.construct : Stmt → String
  | .expression .. => "expression statement"
  | .print .. => "print statement"
  | .varDef .. => "variable declaration"
  | .block .. => "block"
  | .ifThen .. => "if statement"
  | .ifElse .. => "if statement"
  | .whileLoop .. => "while statement"
  | .funDef .. => "function declaration"
  | .ret .. => "return statement"
  | .classDef .. => "class declaration"

end Stacklet
