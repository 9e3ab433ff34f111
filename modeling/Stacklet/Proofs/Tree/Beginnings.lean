import Stacklet.Proofs.Tree.Passing

/-! # First tokens

The first token of a rendering tells calls from other expressions, and declarations from statements.
It never is one of the tokens that end a list, a block or a conditional.
-/

namespace Stacklet

/-- Tokens that a call or a primary expression can begin with. -/
def Token.opensCall : Token → Bool
  | .name _ | .number _ | .string _ => true
  | .keyword .kwFalse | .keyword .kwTrue | .keyword .kwNil | .symbol .openParen => true
  | _ => false

/-- Tokens that an expression can begin with. -/
def Token.opensExpr : Token → Bool
  | .keyword .kwFun | .symbol .bang | .symbol .minus => true
  | token => token.opensCall

/-- Tokens that a declaration begins with. -/
def Token.opensDeclaration : Token → Bool
  | .keyword .kwVar | .keyword .kwFun | .keyword .kwClass => true
  | _ => false

/-- Tokens that a declaration or a statement can begin with. -/
def Token.opensStmt : Token → Bool
  | .keyword .kwIf | .keyword .kwPrint | .keyword .kwReturn | .keyword .kwWhile => true
  | .keyword .kwVar | .keyword .kwClass | .symbol .openCurly => true
  | token => token.opensExpr

/-- Tokens that stand behind full expressions. -/
def Token.endsExpr : Token → Bool
  | .symbol .closeParen | .symbol .semicolon | .symbol .comma => true
  | _ => false

theorem Token.opensExpr_of_opensCall {token : Token} (h : token.opensCall = true) :
    token.opensExpr = true := by
  unfold Token.opensExpr
  split
  · rfl
  · rfl
  · rfl
  · exact h

theorem Token.opensStmt_of_opensExpr {token : Token} (h : token.opensExpr = true) :
    token.opensStmt = true := by
  unfold Token.opensStmt
  split <;> first | rfl | exact h

theorem Token.ne_else_of_opensStmt {token : Token} (h : token.opensStmt = true) :
    token ≠ .keyword .kwElse := by
  rintro rfl
  exact nomatch h

theorem Token.unary?_of_opensCall {token : Token} (h : token.opensCall = true) :
    Grammar.unary? token = none := by
  cases hunary : Grammar.unary? token with
  | none => rfl
  | some op =>
      obtain rfl := Grammar.unary?_eq_some_iff.mp hunary
      cases op <;> exact nomatch h

theorem Token.opensDeclaration_of_opensExpr {token : Token} (h : token.opensExpr = true)
    (hfun : token ≠ .keyword .kwFun) : token.opensDeclaration = false := by
  unfold Token.opensDeclaration
  split
  · exact nomatch h
  · exact absurd rfl hfun
  · exact nomatch h
  · rfl

theorem Literal.opensCall_token (value : Literal) : value.token.opensCall = true := by
  cases value with
  | bool value => cases value <;> rfl
  | _ => rfl

theorem Expr.exists_first : ∀ expr : Expr, ∃ mark marks, expr.marks = mark :: marks ∧
    mark.token.opensExpr = true
  | .binary left op right | .logical left op right => by
      obtain ⟨mark, marks, hmarks, hopens⟩ := left.exists_first
      exact ⟨mark, _, by rw [Expr.marks, hmarks, List.cons_append], hopens⟩
  | .call callee paren arguments => by
      obtain ⟨mark, marks, hmarks, hopens⟩ := callee.exists_first
      exact ⟨mark, _, by rw [Expr.marks, hmarks, List.cons_append], hopens⟩
  | .unary op operand => ⟨_, _, by rw [Expr.marks], by cases op.value <;> rfl⟩
  | .literal value span =>
      ⟨_, _, by rw [Expr.marks], Token.opensExpr_of_opensCall value.opensCall_token⟩
  | .grouping inner => ⟨_, _, by rw [Expr.marks], rfl⟩
  | .var name => ⟨_, _, by rw [Expr.marks], rfl⟩
  | .assign name value => ⟨_, _, by rw [Expr.marks], rfl⟩
  | .lambda parameters body => ⟨_, _, by rw [Expr.marks], rfl⟩

theorem Expr.exists_first_of_le_rank : ∀ {expr : Expr}, expr.Canonical → 8 ≤ expr.rank →
    ∃ mark marks, expr.marks = mark :: marks ∧ mark.token.opensCall = true
  | .call callee paren arguments, h, _ => by
      obtain ⟨mark, marks, hmarks, hopens⟩ := callee.exists_first_of_le_rank h.1 h.2.1
      exact ⟨mark, _, by rw [Expr.marks, hmarks, List.cons_append], hopens⟩
  | .literal value span, _, _ => ⟨_, _, by rw [Expr.marks], value.opensCall_token⟩
  | .grouping inner, _, _ => ⟨_, _, by rw [Expr.marks], rfl⟩
  | .var name, _, _ => ⟨_, _, by rw [Expr.marks], rfl⟩
  | .binary left op right, _, hrank => absurd op.value.rank_lt (Nat.not_lt_of_lt hrank)
  | .logical left op right, _, hrank => absurd op.value.rank_lt (Nat.not_lt_of_lt hrank)

theorem Stmt.exists_first (stmt : Stmt) : ∃ mark marks, stmt.marks = mark :: marks ∧
    mark.token.opensStmt = true ∧ (stmt.isDeclaration = false → stmt.looksDeclared = false →
      mark.token.opensDeclaration = false) := by
  cases stmt with
  | expression expr =>
      obtain ⟨mark, marks, hmarks, hopens⟩ := expr.exists_first
      refine ⟨mark, _, by rw [Stmt.marks, hmarks, List.cons_append],
        Token.opensStmt_of_opensExpr hopens, fun _ hlooks => ?_⟩
      apply Token.opensDeclaration_of_opensExpr hopens
      simpa [Stmt.looksDeclared, hmarks] using hlooks
  | varDef name initializer =>
      cases initializer <;> exact ⟨_, _, by rw [Stmt.marks], rfl, nofun⟩
  | ret keyword value => cases value <;> exact ⟨_, _, by rw [Stmt.marks], rfl, fun _ _ => rfl⟩
  | funDef function => exact ⟨_, _, by rw [Stmt.marks], rfl, nofun⟩
  | classDef name methods => exact ⟨_, _, by rw [Stmt.marks], rfl, nofun⟩
  | _ => exact ⟨_, _, by rw [Stmt.marks], rfl, fun _ _ => rfl⟩

theorem Written.ahead_eq {mark : Mark} {marks : List Mark} {tokens : List (Located Token)}
    (h : Written (mark :: marks) tokens) (rest : List (Located Token)) (last : Located Token) :
    ahead (tokens ++ rest) last = mark.token := by
  obtain ⟨token, tail, rfl, hmark, -⟩ := written_cons.mp h
  exact hmark.1

theorem Written.opensExpr {expr : Expr} {tokens : List (Located Token)}
    (h : Written expr.marks tokens) (rest : List (Located Token)) (last : Located Token) :
    (ahead (tokens ++ rest) last).opensExpr = true := by
  obtain ⟨mark, marks, hmarks, hopens⟩ := expr.exists_first
  rw [hmarks] at h
  rwa [h.ahead_eq]

theorem Written.peek_ne {expr : Expr} {tokens rest : List (Located Token)}
    {last previous : Located Token} {token : Token} (h : Written expr.marks tokens)
    (htoken : token.opensExpr = false) :
    (Cursor.peek ⟨tokens ++ rest, last, previous⟩).value ≠ token := by
  rintro rfl
  exact Bool.eq_false_iff.mp htoken (h.opensExpr rest last)

theorem Written.opensStmt {stmt : Stmt} {tokens : List (Located Token)}
    (h : Written stmt.marks tokens) (rest : List (Located Token)) (last : Located Token) :
    (ahead (tokens ++ rest) last).opensStmt = true := by
  obtain ⟨mark, marks, hmarks, hopens, -⟩ := stmt.exists_first
  rw [hmarks] at h
  rwa [h.ahead_eq]

theorem Written.function_opensStmt {function : Function} {tokens : List (Located Token)}
    (h : Written function.marks tokens) (rest : List (Located Token)) (last : Located Token) :
    (ahead (tokens ++ rest) last).opensStmt = true := by
  obtain ⟨name, names, body⟩ := function
  rw [Function.marks] at h
  rw [h.ahead_eq]
  rfl

theorem Expr.length_pos_of_written {expr : Expr} {tokens : List (Located Token)}
    (h : Written expr.marks tokens) : 0 < tokens.length := by
  obtain ⟨mark, marks, hmarks, -⟩ := expr.exists_first
  rw [← h.length_eq, hmarks]
  exact Nat.succ_pos _

theorem Stmt.length_pos_of_written {stmt : Stmt} {tokens : List (Located Token)}
    (h : Written stmt.marks tokens) : 0 < tokens.length := by
  obtain ⟨mark, marks, hmarks, -⟩ := stmt.exists_first
  rw [← h.length_eq, hmarks]
  exact Nat.succ_pos _

theorem Function.length_pos_of_written {function : Function} {tokens : List (Located Token)}
    (h : Written function.marks tokens) : 0 < tokens.length := by
  obtain ⟨name, parameters, body⟩ := function
  rw [← h.length_eq, Function.marks]
  exact Nat.succ_pos _

end Stacklet
