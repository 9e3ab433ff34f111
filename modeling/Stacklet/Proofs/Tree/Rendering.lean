import Mathlib.Data.List.Forall2
import Stacklet.Tree.Parser

/-! # Rendering of trees

Every tree is written as tokens in one way. A mark of a rendering is a token together with the place
that the tree keeps for it. A tree is canonical if nothing but its own rendering is needed to find
it again: operators hold together as their order says, and no branch is open to a later word.
-/

namespace Stacklet

/-! ## Marks -/

/-- A token of a rendering. Some tokens have a place in the tree, and of those the tree may have
forgotten where they were. -/
structure Mark where
  token : Token
  place : Option (Option Span)
deriving DecidableEq

namespace Mark

/-- A symbol without a place in the tree. -/
def symbol (symbol : Symbol) : Mark :=
  ⟨.symbol symbol, none⟩

/-- A keyword without a place in the tree. -/
def keyword (word : Keyword) : Mark :=
  ⟨.keyword word, none⟩

/-- A token that the tree has a place for. -/
def placed (token : Token) (span : Span) : Mark :=
  ⟨token, some (some span)⟩

/-- A name with its place. -/
def name (name : Located String) : Mark :=
  placed (.name name.value) name.span

end Mark

/-- The token of an operator between two values. -/
def BinaryOp.token : BinaryOp → Token
  | add => .symbol .plus
  | sub => .symbol .minus
  | mul => .symbol .times
  | div => .symbol .slash
  | equal => .symbol .equal
  | notEqual => .symbol .bangEqual
  | less => .symbol .less
  | lessEqual => .symbol .lessEqual
  | greater => .symbol .greater
  | greaterEqual => .symbol .greaterEqual

/-- The token of an operator before one value. -/
def UnaryOp.token : UnaryOp → Token
  | not => .symbol .bang
  | negate => .symbol .minus

/-- The token of an operator that may leave its right side alone. -/
def LogicalOp.token : LogicalOp → Token
  | and => .keyword .kwAnd
  | or => .keyword .kwOr

/-- The token of a constant. -/
def Literal.token : Literal → Token
  | number value => .number value
  | string value => .string value
  | bool true => .keyword .kwTrue
  | bool false => .keyword .kwFalse
  | nil => .keyword .kwNil

/-- Entries of a list with commas between them. -/
def listed : List (List Mark) → List Mark
  | [] => []
  | [entry] => entry
  | entry :: rest => entry ++ .symbol .comma :: listed rest

/-- Parameters in their parentheses. -/
def parameterMarks (parameters : List (Located String)) : List Mark :=
  .symbol .openParen :: (listed (parameters.map fun name => [.name name]) ++ [.symbol .closeParen])

mutual

/-- How an expression is written. -/
def Expr.marks : Expr → List Mark
  | .binary left op right => left.marks ++ .placed op.value.token op.span :: right.marks
  | .unary op operand => .placed op.value.token op.span :: operand.marks
  | .literal value span => [⟨value.token, some span⟩]
  | .grouping inner => .symbol .openParen :: (inner.marks ++ [.symbol .closeParen])
  | .var name => [.name name]
  | .assign name value => .name name :: .symbol .assign :: value.marks
  | .logical left op right => left.marks ++ .placed op.value.token op.span :: right.marks
  | .call callee paren arguments =>
    callee.marks ++ .symbol .openParen ::
      (listed (Expr.marksOf arguments) ++ [.placed (.symbol .closeParen) paren])
  | .lambda parameters body =>
    .keyword .kwFun :: (parameterMarks parameters ++
      .symbol .openCurly :: (Stmt.marksOf body ++ [.symbol .closeCurly]))

/-- How each of some expressions is written. -/
def Expr.marksOf : List Expr → List (List Mark)
  | [] => []
  | expr :: rest => expr.marks :: Expr.marksOf rest

/-- How a statement is written. -/
def Stmt.marks : Stmt → List Mark
  | .expression expr => expr.marks ++ [.symbol .semicolon]
  | .print expr => .keyword .kwPrint :: (expr.marks ++ [.symbol .semicolon])
  | .varDef name none => [.keyword .kwVar, .name name, .symbol .semicolon]
  | .varDef name (some value) =>
    .keyword .kwVar :: .name name :: .symbol .assign :: (value.marks ++ [.symbol .semicolon])
  | .block body => .symbol .openCurly :: (Stmt.marksOf body ++ [.symbol .closeCurly])
  | .ifThen condition thenBranch =>
    .keyword .kwIf :: .symbol .openParen ::
      (condition.marks ++ .symbol .closeParen :: thenBranch.marks)
  | .ifElse condition thenBranch elseBranch =>
    .keyword .kwIf :: .symbol .openParen :: (condition.marks ++ .symbol .closeParen ::
      (thenBranch.marks ++ .keyword .kwElse :: elseBranch.marks))
  | .whileLoop condition body =>
    .keyword .kwWhile :: .symbol .openParen ::
      (condition.marks ++ .symbol .closeParen :: body.marks)
  | .funDef function => .keyword .kwFun :: function.marks
  | .ret keyword none => [.placed (.keyword .kwReturn) keyword, .symbol .semicolon]
  | .ret keyword (some value) =>
    .placed (.keyword .kwReturn) keyword :: (value.marks ++ [.symbol .semicolon])
  | .classDef name methods =>
    .keyword .kwClass :: .name name :: .symbol .openCurly ::
      (Function.marksOf methods ++ [.symbol .closeCurly])

/-- How statements are written, one after the other. -/
def Stmt.marksOf : List Stmt → List Mark
  | [] => []
  | stmt :: rest => stmt.marks ++ Stmt.marksOf rest

/-- How a function is written, behind its keyword if it has one. -/
def Function.marks : Function → List Mark
  | .mk name parameters body =>
    .name name :: (parameterMarks parameters ++
      .symbol .openCurly :: (Stmt.marksOf body ++ [.symbol .closeCurly]))

/-- How functions are written, one after the other. -/
def Function.marksOf : List Function → List Mark
  | [] => []
  | function :: rest => function.marks ++ Function.marksOf rest

end

/-- The tokens that a program is written as. -/
def rendering (tree : List Stmt) : List Token :=
  (Stmt.marksOf tree).map Mark.token

/-- Every place that a program keeps is that of the token of the stream that it is written as. -/
def KeepsPlaces (tree : List Stmt) (stream : List (Located Token)) : Prop :=
  ∀ pair ∈ (Stmt.marksOf tree).zip stream, ∀ place ∈ pair.1.place, place = some pair.2.span

/-! ## Canonical trees -/

/-- How tightly an operator between two values holds them. -/
def BinaryOp.rank : BinaryOp → Nat
  | equal | notEqual => 3
  | less | lessEqual | greater | greaterEqual => 4
  | add | sub => 5
  | mul | div => 6

/-- How tightly an operator that may leave its right side alone holds its sides. -/
def LogicalOp.rank : LogicalOp → Nat
  | or => 1
  | and => 2

/-- How tightly an expression holds together, from assignments to expressions that stand for
themselves: assignment 0, `or` 1, `and` 2, equality 3, comparison 4, term 5, factor 6, unary 7,
call 8, primary 9. -/
def Expr.rank : Expr → Nat
  | .assign .. => 0
  | .logical _ op _ => op.value.rank
  | .binary _ op _ => op.value.rank
  | .unary .. | .lambda .. => 7
  | .call .. => 8
  | .literal .. | .grouping .. | .var .. => 9

/-- Statements that declare something. -/
def Stmt.isDeclaration : Stmt → Bool
  | .varDef .. | .funDef .. | .classDef .. => true
  | _ => false

/-- Statements that end in a conditional without another arm, which an `else` behind them would
become part of. -/
def Stmt.isOpen : Stmt → Bool
  | .ifThen .. => true
  | .ifElse _ _ elseBranch => elseBranch.isOpen
  | .whileLoop _ body => body.isOpen
  | _ => false

/-- Expression statements that look like the declaration of a function. -/
def Stmt.looksDeclared : Stmt → Bool
  | .expression expr => expr.marks.head?.any (·.token = .keyword .kwFun)
  | _ => false

mutual

/-- Expressions that can be written as they are. -/
def Expr.Canonical : Expr → Prop
  | .binary left op right =>
    left.Canonical ∧ right.Canonical ∧ op.value.rank ≤ left.rank ∧ op.value.rank < right.rank
  | .logical left op right =>
    left.Canonical ∧ right.Canonical ∧ op.value.rank ≤ left.rank ∧ op.value.rank < right.rank
  | .unary _ operand => operand.Canonical ∧ 7 ≤ operand.rank
  | .literal .. | .var .. => True
  | .grouping inner => inner.Canonical
  | .assign _ value => value.Canonical
  | .call callee _ arguments =>
    callee.Canonical ∧ 8 ≤ callee.rank ∧ arguments.length ≤ maxListed ∧ Expr.AllCanonical arguments
  | .lambda parameters body => parameters.length ≤ maxListed ∧ Stmt.AllCanonical body

/-- Expressions that can all be written as they are. -/
def Expr.AllCanonical : List Expr → Prop
  | [] => True
  | expr :: rest => expr.Canonical ∧ Expr.AllCanonical rest

/-- Statements that can be written as they are. -/
def Stmt.Canonical : Stmt → Prop
  | .expression expr => expr.Canonical
  | .print expr => expr.Canonical
  | .varDef _ none => True
  | .varDef _ (some value) => value.Canonical
  | .block body => Stmt.AllCanonical body
  | .ifThen condition thenBranch =>
    condition.Canonical ∧ thenBranch.Canonical ∧ thenBranch.isDeclaration = false
  | .ifElse condition thenBranch elseBranch =>
    condition.Canonical ∧ thenBranch.Canonical ∧ thenBranch.isDeclaration = false ∧
      thenBranch.isOpen = false ∧ elseBranch.Canonical ∧ elseBranch.isDeclaration = false
  | .whileLoop condition body =>
    condition.Canonical ∧ body.Canonical ∧ body.isDeclaration = false
  | .funDef function => function.Canonical
  | .ret _ none => True
  | .ret _ (some value) => value.Canonical
  | .classDef _ methods => Function.AllCanonical methods

/-- Statements that can all be written as they are where declarations are allowed. -/
def Stmt.AllCanonical : List Stmt → Prop
  | [] => True
  | stmt :: rest => stmt.Canonical ∧ stmt.looksDeclared = false ∧ Stmt.AllCanonical rest

/-- Functions that can be written as they are. -/
def Function.Canonical : Function → Prop
  | .mk _ parameters body => parameters.length ≤ maxListed ∧ Stmt.AllCanonical body

/-- Functions that can all be written as they are. -/
def Function.AllCanonical : List Function → Prop
  | [] => True
  | function :: rest => function.Canonical ∧ Function.AllCanonical rest

end

/-! ## Nesting -/

mutual

/-- How many levels of nesting there are within an expression: one for each full expression and each
operand of a unary operator on the longest path. -/
def Expr.depth : Expr → Nat
  | .binary left _ right => max left.depth right.depth
  | .logical left _ right => max left.depth right.depth
  | .unary _ operand => operand.depth + 1
  | .literal .. | .var .. => 0
  | .grouping inner => inner.depth + 1
  | .assign _ value => value.depth + 1
  | .call callee _ arguments => max callee.depth (Expr.depthOf arguments)
  | .lambda _ body => Stmt.depthOf body

/-- How many levels of nesting full expressions have. -/
def Expr.depthOf : List Expr → Nat
  | [] => 0
  | expr :: rest => max (expr.depth + 1) (Expr.depthOf rest)

/-- How many levels of nesting a statement has. It is a level itself unless it is a declaration. -/
def Stmt.depth : Stmt → Nat
  | .expression expr => expr.depth + 1 + 1
  | .print expr => expr.depth + 1 + 1
  | .varDef _ none => 0
  | .varDef _ (some value) => value.depth + 1
  | .block body => Stmt.depthOf body + 1
  | .ifThen condition thenBranch => max (condition.depth + 1) thenBranch.depth + 1
  | .ifElse condition thenBranch elseBranch =>
    max (condition.depth + 1) (max thenBranch.depth elseBranch.depth) + 1
  | .whileLoop condition body => max (condition.depth + 1) body.depth + 1
  | .funDef function => function.depth
  | .ret _ none => 1
  | .ret _ (some value) => value.depth + 1 + 1
  | .classDef _ methods => Function.depthOf methods

/-- How many levels of nesting statements have. -/
def Stmt.depthOf : List Stmt → Nat
  | [] => 0
  | stmt :: rest => max stmt.depth (Stmt.depthOf rest)

/-- How many levels of nesting a function has. -/
def Function.depth : Function → Nat
  | .mk _ _ body => Stmt.depthOf body

/-- How many levels of nesting functions have. -/
def Function.depthOf : List Function → Nat
  | [] => 0
  | function :: rest => max function.depth (Function.depthOf rest)

end

/-- Programs that can be written as they are. -/
def IsCanonical (tree : List Stmt) : Prop :=
  Stmt.AllCanonical tree ∧ Stmt.depthOf tree ≤ maxDepth

end Stacklet
