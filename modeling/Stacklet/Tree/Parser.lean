import Stacklet.Tree
import Stacklet.Tree.Cursor

/-! # Grammar of the structured language

One definition for each rule, given the readers that the rule refers back to. The recursion of the
grammar goes through four of them (declarations, statements, expressions and operands) and is tied
in one place, with fuel that outlasts every token stream. Statements, full expressions and the
operands of unary operators each use up one level of the room for nesting.
-/

namespace Stacklet

namespace Grammar

open Reader

/-- The readers through which the grammar is recursive, each for a given room for nesting, and the
fuel that is left for lists and chains. -/
structure Scope where
  fuel : Nat
  declaration : (room : Nat) → Reader Stmt
  statement : (room : Nat) → Reader Stmt
  expression : (room : Nat) → Reader Expr
  operand : (room : Nat) → Reader Expr

/-! ## Expressions -/

/-- An operator between two operands. -/
inductive InfixOp where
  | binary (op : BinaryOp)
  | logical (op : LogicalOp)
deriving DecidableEq, Repr

/-- The expression that an operator makes of two others. -/
def InfixOp.apply (left : Expr) (span : Span) (right : Expr) : InfixOp → Expr
  | binary op => .binary left ⟨op, span⟩ right
  | logical op => .logical left ⟨op, span⟩ right

/-- The levels of precedence of operators between two operands. -/
inductive Level where
  | disjunction
  | conjunction
  | equality
  | comparison
  | term
  | factor
deriving DecidableEq, Repr

/-- From the loosest level to the tightest. -/
def Level.all : List Level :=
  [disjunction, conjunction, equality, comparison, term, factor]

/-- The operator that a token is on a level. -/
def Level.operator? : Level → Token → Option InfixOp
  | disjunction, .keyword .kwOr => some (.logical .or)
  | conjunction, .keyword .kwAnd => some (.logical .and)
  | equality, .symbol .bangEqual => some (.binary .notEqual)
  | equality, .symbol .equal => some (.binary .equal)
  | comparison, .symbol .greater => some (.binary .greater)
  | comparison, .symbol .greaterEqual => some (.binary .greaterEqual)
  | comparison, .symbol .less => some (.binary .less)
  | comparison, .symbol .lessEqual => some (.binary .lessEqual)
  | term, .symbol .minus => some (.binary .sub)
  | term, .symbol .plus => some (.binary .add)
  | factor, .symbol .slash => some (.binary .div)
  | factor, .symbol .times => some (.binary .mul)
  | _, _ => none

/-- Operands of one level behind a first one, grouped to the left. -/
def chain (level : Level) (operand : Reader Expr) : (fuel : Nat) → (left : Expr) → Reader Expr
  | 0, _ => unfinished
  | fuel + 1, left => do
    match level.operator? (← peek) with
    | none => return left
    | some op =>
      let token ← next
      let right ← operand
      chain level operand fuel (op.apply left token.span right)

/-- An expression whose operators are on the given levels, loosest first. -/
def infixed (scope : Scope) (room : Nat) : List Level → Reader Expr
  | [] => scope.operand room
  | level :: tighter => do
    let left ← infixed scope room tighter
    chain level (infixed scope room tighter) scope.fuel left

/-- An assignment, or an expression of the loosest level. What an assignment may not go to is
reported at the equals sign, and only when the value could be read. -/
def assignment (scope : Scope) (room : Nat) : Reader Expr := do
  let target ← infixed scope room Level.all
  if ← eat (.symbol .assign) then
    let equals ← previousSpan
    let value ← scope.expression room
    match target with
    | .var name => return .assign name value
    | _ => failAt .invalidAssignmentTarget equals
  else return target

/-- Parameters up to the closing parenthesis. -/
def parameters (scope : Scope) : Reader (List (Located String)) := do
  let names ← if ← isAhead (.symbol .closeParen) then pure []
    else separated .parameters (expectName "parameter name") scope.fuel []
  let _ ← expectSymbol .closeParen "`)` after parameters"
  return names

/-- Whether a block or the stream ends here. -/
def atBlockEnd (cursor : Cursor) : Bool :=
  cursor.peek.value = .symbol .closeCurly || cursor.atEnd

/-- Declarations up to the closing brace. -/
def block (scope : Scope) (room : Nat) : Reader (List Stmt) := do
  let body ← collect atBlockEnd (scope.declaration room) scope.fuel []
  let _ ← expectSymbol .closeCurly "`\x7d` after block"
  return body

/-- A function without a name, behind its keyword. -/
def lambda (scope : Scope) (room : Nat) : Reader Expr := do
  let _ ← expectSymbol .openParen "`(` after `fun`"
  let names ← parameters scope
  let _ ← expectSymbol .openCurly "`\x7b` before lambda body"
  let body ← block scope room
  return .lambda names body

/-- The constant that a token denotes. -/
def literal? : Token → Option Literal
  | .keyword .kwFalse => some (.bool false)
  | .keyword .kwTrue => some (.bool true)
  | .keyword .kwNil => some .nil
  | .number value => some (.number value)
  | .string value => some (.string value)
  | _ => none

/-- A constant, a variable, or an expression in parentheses. -/
def primary (scope : Scope) (room : Nat) : Reader Expr := do
  let token ← peek
  match literal? token with
  | some value =>
    let read ← next
    return .literal value (some read.span)
  | none =>
    match token with
    | .name text =>
      let read ← next
      return .var ⟨text, read.span⟩
    | .symbol .openParen =>
      let _ ← next
      let inner ← scope.expression room
      let _ ← expectSymbol .closeParen "`)` after expression"
      return .grouping inner
    | _ => fail (.expectedExpr token)

/-- Arguments up to the closing parenthesis, with the place of that. -/
def arguments (scope : Scope) (room : Nat) : Reader (List Expr × Span) := do
  let values ← if ← isAhead (.symbol .closeParen) then pure []
    else separated .arguments (scope.expression room) scope.fuel []
  let paren ← expectSymbol .closeParen "`)` after arguments"
  return (values, paren.span)

/-- Calls of what was read so far. -/
def calls (scope : Scope) (room : Nat) : (fuel : Nat) → (callee : Expr) → Reader Expr
  | 0, _ => unfinished
  | fuel + 1, callee => do
    if ← eat (.symbol .openParen) then
      let (values, paren) ← arguments scope room
      calls scope room fuel (.call callee paren values)
    else return callee

/-- The operator before an operand that a token is. -/
def unary? : Token → Option UnaryOp
  | .symbol .bang => some .not
  | .symbol .minus => some .negate
  | _ => none

/-- A function without a name, an operand behind a unary operator, or a call. -/
def operand (scope : Scope) (room : Nat) : Reader Expr := do
  if ← eat (.keyword .kwFun) then lambda scope room
  else
    match unary? (← peek) with
    | some op =>
      let token ← next
      let right ← nested scope.operand room
      return .unary ⟨op, token.span⟩ right
    | none =>
      let callee ← primary scope room
      calls scope room scope.fuel callee

/-! ## Statements -/

/-- An expression and its semicolon. -/
def expressionStatement (scope : Scope) (room : Nat) : Reader Stmt := do
  let expr ← scope.expression room
  let _ ← expectSymbol .semicolon "`;` after expression"
  return .expression expr

/-- A variable, behind its keyword. -/
def varDefinition (scope : Scope) (room : Nat) : Reader Stmt := do
  let name ← expectName "variable name"
  let initializer ← if ← eat (.symbol .assign) then some <$> scope.expression room else pure none
  let _ ← expectSymbol .semicolon "`;` after variable declaration"
  return .varDef name initializer

/-- The loop that a `for` stands for: the increment follows the body, and the initializer precedes
the loop, each in a block with it. A missing condition is the constant true, with no place. -/
def forLoop (initializer : Option Stmt) (condition increment : Option Expr) (body : Stmt) : Stmt :=
  let body := match increment with
    | some increment => .block [body, .expression increment]
    | none => body
  let loop := .whileLoop (condition.getD (.literal (.bool true) none)) body
  match initializer with
  | some initializer => .block [initializer, loop]
  | none => loop

/-- An expression, unless the token that ends the clause is ahead. -/
def clause (scope : Scope) (room : Nat) (stop : Symbol) : Reader (Option Expr) := do
  if ← isAhead (.symbol stop) then return none else some <$> scope.expression room

/-- What a `for` begins with, its semicolon included. -/
def forInitializer (scope : Scope) (room : Nat) : Reader (Option Stmt) := do
  if ← eat (.symbol .semicolon) then return none
  else if ← eat (.keyword .kwVar) then some <$> varDefinition scope room
  else some <$> expressionStatement scope room

/-- A `for`, behind its keyword. -/
def forStatement (scope : Scope) (room : Nat) : Reader Stmt := do
  let _ ← expectSymbol .openParen "`(` after `for`"
  let initializer ← forInitializer scope room
  let condition ← clause scope room .semicolon
  let _ ← expectSymbol .semicolon "`;` after loop condition"
  let increment ← clause scope room .closeParen
  let _ ← expectSymbol .closeParen "`)` after for clauses"
  let body ← scope.statement room
  return forLoop initializer condition increment body

/-- An `if`, behind its keyword. -/
def ifStatement (scope : Scope) (room : Nat) : Reader Stmt := do
  let _ ← expectSymbol .openParen "`(` after `if`"
  let condition ← scope.expression room
  let _ ← expectSymbol .closeParen "`)` after if condition"
  let thenBranch ← scope.statement room
  if ← eat (.keyword .kwElse) then return .ifElse condition thenBranch (← scope.statement room)
  else return .ifThen condition thenBranch

/-- A `print`, behind its keyword. -/
def printStatement (scope : Scope) (room : Nat) : Reader Stmt := do
  let value ← scope.expression room
  let _ ← expectSymbol .semicolon "`;` after value"
  return .print value

/-- A `return`, behind its keyword. -/
def returnStatement (scope : Scope) (room : Nat) : Reader Stmt := do
  let keyword ← previousSpan
  let value ← clause scope room .semicolon
  let _ ← expectSymbol .semicolon "`;` after return value"
  return .ret keyword value

/-- A `while`, behind its keyword. -/
def whileStatement (scope : Scope) (room : Nat) : Reader Stmt := do
  let _ ← expectSymbol .openParen "`(` after `while`"
  let condition ← scope.expression room
  let _ ← expectSymbol .closeParen "`)` after condition"
  let body ← scope.statement room
  return .whileLoop condition body

/-- A statement that declares nothing. -/
def statement (scope : Scope) (room : Nat) : Reader Stmt := do
  if ← eat (.keyword .kwFor) then forStatement scope room
  else if ← eat (.keyword .kwIf) then ifStatement scope room
  else if ← eat (.keyword .kwPrint) then printStatement scope room
  else if ← eat (.keyword .kwReturn) then returnStatement scope room
  else if ← eat (.keyword .kwWhile) then whileStatement scope room
  else if ← eat (.symbol .openCurly) then .block <$> block scope room
  else expressionStatement scope room

/-! ## Declarations -/

/-- A function or method; `kind` is what messages call it. -/
def function (scope : Scope) (room : Nat) (kind : String) : Reader Function := do
  let name ← expectName s!"{kind} name"
  let _ ← expectSymbol .openParen s!"`(` after {kind} name"
  let names ← parameters scope
  let _ ← expectSymbol .openCurly ("`\x7b` before " ++ kind ++ " body")
  let body ← block scope room
  return .mk name names body

/-- A class, behind its keyword. -/
def classDefinition (scope : Scope) (room : Nat) : Reader Stmt := do
  let name ← expectName "class name"
  let _ ← expectSymbol .openCurly "`\x7b` before class body"
  let methods ← collect atBlockEnd (function scope room "method") scope.fuel []
  let _ ← expectSymbol .closeCurly "`\x7d` after class body"
  return .classDef name methods

/-- A declaration or a statement. A failure is followed by recovery. -/
def declaration (scope : Scope) (room : Nat) : Reader Stmt :=
  recovering do
    if ← eat (.keyword .kwClass) then classDefinition scope room
    else if ← eat (.keyword .kwFun) then .funDef <$> function scope room "function"
    else if ← eat (.keyword .kwVar) then varDefinition scope room
    else scope.statement room

/-! ## The knot -/

mutual

/-- Declarations, with fuel for the recursion of the grammar. -/
def declarationWith : (fuel : Nat) → (room : Nat) → Reader Stmt
  | 0, _ => unfinished
  | fuel + 1, room =>
    declaration ⟨fuel, declarationWith fuel, statementWith fuel, expressionWith fuel,
      operandWith fuel⟩ room

/-- Statements, with fuel for the recursion of the grammar. -/
def statementWith : (fuel : Nat) → (room : Nat) → Reader Stmt
  | 0, _ => unfinished
  | fuel + 1, room =>
    nested (statement ⟨fuel, declarationWith fuel, statementWith fuel, expressionWith fuel,
      operandWith fuel⟩) room

/-- Full expressions, with fuel for the recursion of the grammar. -/
def expressionWith : (fuel : Nat) → (room : Nat) → Reader Expr
  | 0, _ => unfinished
  | fuel + 1, room =>
    nested (assignment ⟨fuel, declarationWith fuel, statementWith fuel, expressionWith fuel,
      operandWith fuel⟩) room

/-- Operands, with fuel for the recursion of the grammar. -/
def operandWith : (fuel : Nat) → (room : Nat) → Reader Expr
  | 0, _ => unfinished
  | fuel + 1, room =>
    operand ⟨fuel, declarationWith fuel, statementWith fuel, expressionWith fuel,
      operandWith fuel⟩ room

end

/-- Declarations up to the end of input. -/
def program (fuel : Nat) : Reader (List Stmt) :=
  collect Cursor.atEnd (declarationWith fuel maxDepth) fuel []

/-- Fuel for a stream of tokens: at most four rules are entered for each token and each level of
nesting before the next token is passed. -/
def fuelFor (tokens : Nat) : Nat :=
  4 * (tokens + maxDepth + 1)

end Grammar

/-- A stream that is no program: what is wrong with it, and whether recovery from that ends. -/
structure SyntaxFailure where
  error : Located SyntaxError
  recovers : Bool
deriving DecidableEq, Repr

/-- The program that a token stream spells. A stream without tokens spells the empty program. -/
def parse (tokens : List (Located Token)) : Except SyntaxFailure (List Stmt) :=
  match tokens.getLast? with
  | none => .ok []
  | some last =>
    match Grammar.program (Grammar.fuelFor tokens.length) ⟨tokens, last, last⟩ with
    | .done statements _ => .ok statements
    | .failed error recovery => .error ⟨error, recovery.isSome⟩
    | .unfinished => .error ⟨⟨.tooDeep, last.span⟩, true⟩

end Stacklet
