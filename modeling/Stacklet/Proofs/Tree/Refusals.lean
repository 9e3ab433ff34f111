import Stacklet.Proofs.Tree.Soundness
import Stacklet.Proofs.Tree.Tracking

/-! # What readers cannot begin with

A reader is in trouble at a token that nothing it reads begins with. For the rules of the grammar
these are the tokens that are not among the first ones of the rule, the end of input above all.
Chains of operators and calls are never in need of a further token; before the end of input they
end.
-/

namespace Stacklet

/-- Tokens are different if one belongs to a class and the other does not. -/
theorem Token.ne_of_class {isOf : Token → Bool} {token other : Token} (h : isOf token = true)
    (hother : isOf other = false) : token ≠ other := by
  rintro rfl
  rw [h] at hother
  cases hother

/-- How reading can go wrong. -/
inductive Trouble where
  | failed (error : SyntaxError)
  | unfinished

/-- Troubles with the token ahead, and the want of fuel. -/
def Trouble.isRefusal : Trouble → Bool
  | .failed error => error.found?.isSome
  | .unfinished => true

/-- What went wrong, if anything did. -/
def Outcome.trouble? {α : Type} : Outcome α → Option Trouble
  | .done _ _ => none
  | .failed error _ => some (.failed error.value)
  | .unfinished => some .unfinished

theorem Outcome.eq_unfinished {α : Type} {outcome : Outcome α}
    (h : outcome.trouble? = some .unfinished) : outcome = .unfinished := by
  cases outcome with
  | unfinished => rfl
  | _ => cases h

theorem Outcome.exists_eq_failed {α : Type} {outcome : Outcome α} {error : SyntaxError}
    (h : outcome.trouble? = some (.failed error)) :
    ∃ span recovery, outcome = .failed ⟨error, span⟩ recovery := by
  cases outcome with
  | failed located recovery =>
      cases h
      exact ⟨located.span, recovery, rfl⟩
  | _ => cases h

namespace Reader

variable {α β : Type} {cursor : Cursor}

/-- A reader that is in trouble at a cursor. -/
def Stuck (read : Reader α) (cursor : Cursor) : Prop :=
  (read cursor).trouble? ≠ none

/-- A reader that is in trouble with the token ahead of a cursor, or in want of fuel. -/
def Refuses (read : Reader α) (cursor : Cursor) : Prop :=
  ∃ trouble, (read cursor).trouble? = some trouble ∧ trouble.isRefusal = true

theorem Refuses.stuck {read : Reader α} (h : Refuses read cursor) : Stuck read cursor := by
  obtain ⟨trouble, htrouble, -⟩ := h
  unfold Stuck
  rw [htrouble]
  exact nofun

theorem bind_of_done {first : Reader α} {next : α → Reader β} {reached : Cursor} {value : α}
    (h : first cursor = .done value reached) : (first >>= next) cursor = next value reached := by
  rw [bind_apply, h]

theorem peek_bind {next : Token → Reader β} :
    (peek >>= next) cursor = next cursor.peek.value cursor := rfl

theorem trouble?_bind {first : Reader α} {next : α → Reader β} (h : Stuck first cursor) :
    ((first >>= next) cursor).trouble? = (first cursor).trouble? := by
  rw [bind_apply]
  unfold Stuck at h
  cases hfirst : first cursor with
  | done value reached =>
      rw [hfirst] at h
      exact absurd rfl h
  | failed error recovery => rfl
  | unfinished => rfl

theorem trouble?_recovering (read : Reader α) :
    (recovering read cursor).trouble? = (read cursor).trouble? := by
  rw [recovering]
  cases read cursor <;> rfl

theorem Stuck.bind {first : Reader α} {next : α → Reader β} (h : Stuck first cursor) :
    Stuck (first >>= next) cursor := by
  unfold Stuck
  rw [trouble?_bind h]
  exact h

theorem Refuses.bind {first : Reader α} {next : α → Reader β} (h : Refuses first cursor) :
    Refuses (first >>= next) cursor := by
  unfold Refuses
  rw [trouble?_bind h.stuck]
  exact h

theorem Stuck.recovering {read : Reader α} (h : Stuck read cursor) :
    Stuck (recovering read) cursor := by
  unfold Stuck
  rw [trouble?_recovering]
  exact h

theorem Stuck.not_done {read : Reader α} {value : α} {reached : Cursor} (h : Stuck read cursor) :
    read cursor ≠ .done value reached := by
  intro hdone
  apply h
  rw [hdone]
  rfl

theorem stuck_nested {read : Nat → Reader α} {room : Nat}
    (h : ∀ inner, Stuck (read inner) cursor) : Stuck (nested read room) cursor := by
  cases room with
  | zero => exact nofun
  | succ inner => exact h inner

theorem eat_of_ne {token : Token} (h : cursor.peek.value ≠ token) :
    eat token cursor = .done false cursor :=
  if_neg h

theorem eat_of_eq {token : Token} (h : cursor.peek.value = token) :
    eat token cursor = .done true cursor.advance :=
  if_pos h

theorem stuck_eat {token : Token} {next : Bool → Reader β} (hne : cursor.peek.value ≠ token)
    (h : Stuck (next false) cursor) : Stuck (eat token >>= next) cursor := by
  unfold Stuck
  rw [bind_of_done (eat_of_ne hne)]
  exact h

theorem refuses_eat {token : Token} {next : Bool → Reader β} (hne : cursor.peek.value ≠ token)
    (h : Refuses (next false) cursor) : Refuses (eat token >>= next) cursor := by
  unfold Refuses
  rw [bind_of_done (eat_of_ne hne)]
  exact h

theorem refuses_expectSymbol {symbol : Symbol} {expected : String}
    {next : Located Token → Reader β} (h : cursor.peek.value ≠ .symbol symbol) :
    Refuses (expectSymbol symbol expected >>= next) cursor := by
  apply Refuses.bind
  unfold Refuses expectSymbol expect
  rw [if_neg h]
  exact ⟨_, rfl, rfl⟩

theorem refuses_expectName {expected : String} (h : ∀ text, cursor.peek.value ≠ .name text) :
    Refuses (expectName expected) cursor := by
  unfold Refuses expectName
  split
  next text htext => exact absurd htext (h text)
  next => exact ⟨_, rfl, rfl⟩

end Reader

namespace Grammar

open Reader

variable {scope : Scope} {room : Nat} {cursor : Cursor}

/-- The readers through which the grammar is recursive are stuck at tokens that they do not begin
with. -/
structure Scope.Blocked (scope : Scope) : Prop where
  declaration {room : Nat} {cursor : Cursor} :
    Category.opens .declaration cursor.peek.value = false → Stuck (scope.declaration room) cursor
  statement {room : Nat} {cursor : Cursor} :
    cursor.peek.value.opensStatement = false → Stuck (scope.statement room) cursor
  expression {room : Nat} {cursor : Cursor} :
    cursor.peek.value.opensExpr = false → Stuck (scope.expression room) cursor
  operand {room : Nat} {cursor : Cursor} :
    cursor.peek.value.opensExpr = false → Stuck (scope.operand room) cursor

theorem peek_ne_of_not {opens : Token → Bool} (h : opens cursor.peek.value = false) {token : Token}
    (htoken : opens token = true) : cursor.peek.value ≠ token :=
  (Token.ne_of_class htoken h).symm

/-! ## Expressions -/

theorem stuck_primary (h : cursor.peek.value.opensExpr = false) :
    Stuck (primary scope room) cursor := by
  have hliteral : literal? cursor.peek.value = none := by
    cases hvalue : literal? cursor.peek.value with
    | none => rfl
    | some value =>
        have htoken := literal?_eq_some_iff.mp hvalue
        have hopens := Token.opensExpr_of_opensCall value.opensCall_token
        exact absurd htoken (peek_ne_of_not h hopens)
  unfold Stuck primary
  rw [peek_bind]
  simp only [hliteral]
  show Stuck _ cursor
  split
  next text htext => exact absurd htext (peek_ne_of_not h rfl)
  next hparen => exact absurd hparen (peek_ne_of_not h rfl)
  next => exact nofun

theorem stuck_operand (h : cursor.peek.value.opensExpr = false) :
    Stuck (operand scope room) cursor := by
  have hunary : unary? cursor.peek.value = none := by
    cases hop : unary? cursor.peek.value with
    | none => rfl
    | some op =>
        have htoken := unary?_eq_some_iff.mp hop
        exact absurd htoken (peek_ne_of_not h (by cases op <;> rfl))
  apply stuck_eat (peek_ne_of_not h rfl)
  unfold Stuck
  simp only [Bool.false_eq_true, if_false, peek_bind, hunary]
  exact (stuck_primary h).bind

theorem stuck_infixed (hscope : scope.Blocked) (h : cursor.peek.value.opensExpr = false)
    (levels : List Level) : Stuck (infixed scope room levels) cursor := by
  induction levels with
  | nil => exact hscope.operand h
  | cons level tighter ih => exact ih.bind

theorem stuck_assignment (hscope : scope.Blocked) (h : cursor.peek.value.opensExpr = false) :
    Stuck (assignment scope room) cursor :=
  (stuck_infixed hscope h Level.all).bind

/-! ## Statements and declarations -/

theorem opensExpr_of_not_opensStatement {token : Token} (h : token.opensStatement = false) :
    token.opensExpr = false := by
  unfold Token.opensStatement at h
  split at h <;> first | cases h | exact h

theorem stuck_expressionStatement (hscope : scope.Blocked)
    (h : cursor.peek.value.opensExpr = false) :
    Stuck (expressionStatement scope room) cursor :=
  (hscope.expression h).bind

theorem stuck_statement (hscope : scope.Blocked) (h : cursor.peek.value.opensStatement = false) :
    Stuck (statement scope room) cursor := by
  unfold statement
  apply stuck_eat (peek_ne_of_not h rfl)
  apply stuck_eat (peek_ne_of_not h rfl)
  apply stuck_eat (peek_ne_of_not h rfl)
  apply stuck_eat (peek_ne_of_not h rfl)
  apply stuck_eat (peek_ne_of_not h rfl)
  apply stuck_eat (peek_ne_of_not h rfl)
  exact stuck_expressionStatement hscope (opensExpr_of_not_opensStatement h)

theorem stuck_declaration (hscope : scope.Blocked)
    (h : Category.opens .declaration cursor.peek.value = false) :
    Stuck (declaration scope room) cursor := by
  have hstatement : cursor.peek.value.opensStatement = false := (Bool.or_eq_false_iff.mp h).2
  apply Stuck.recovering
  apply stuck_eat (peek_ne_of_not h rfl)
  apply stuck_eat (peek_ne_of_not h rfl)
  apply stuck_eat (peek_ne_of_not h rfl)
  exact hscope.statement hstatement

/-! ## The knot -/

theorem scopeWith_blocked (fuel : Nat) : (scopeWith fuel).Blocked := by
  induction fuel with
  | zero =>
      rw [scopeWith_zero]
      exact ⟨fun _ => nofun, fun _ => nofun, fun _ => nofun, fun _ => nofun⟩
  | succ fuel ih =>
      rw [scopeWith_succ]
      constructor
      · exact stuck_declaration ih
      · intro room cursor h
        exact stuck_nested fun _ => stuck_statement ih h
      · intro room cursor h
        exact stuck_nested fun _ => stuck_assignment ih h
      · exact stuck_operand

/-! ## Where expressions end -/

theorem chain_of_operator?_eq_none {level : Level} {operand : Reader Expr} {fuel : Nat}
    {left : Expr} (h : level.operator? cursor.peek.value = none) :
    chain level operand (fuel + 1) left cursor = .done left cursor := by
  rw [chain, peek_bind]
  simp only [h]
  rfl

theorem calls_of_peek_ne {fuel : Nat} {callee : Expr}
    (h : cursor.peek.value ≠ .symbol .openParen) :
    calls scope room (fuel + 1) callee cursor = .done callee cursor := by
  rw [calls, bind_of_done (eat_of_ne h)]
  rfl

end Grammar

end Stacklet
