import Stacklet.Proofs.Tree.Walking

/-! # The grammar in a truncated stream

The rules of the grammar walk through a stream that lacks the end of input to an end. A rule that
refers back to itself has passed different tokens by then, and so has fewer tokens ahead, or it uses
up room for nesting. No rule reads a whole program there, since that would end at the end of input.
-/

namespace Stacklet

/-- Whether a token may be the last one of an operand. -/
def Token.closesOperand : Token → Bool
  | .name _ | .number _ | .string _ | .keyword .kwTrue | .keyword .kwFalse | .keyword .kwNil
  | .symbol .closeParen | .symbol .closeCurly => true
  | _ => false

/-- Tokens with one among them that may be the last one of an operand. -/
def Closes (passed : List Token) : Prop :=
  ∃ token ∈ passed, token.closesOperand = true

namespace Closes

variable {passed : List Token}

theorem of_mem {token : Token} (h : token ∈ passed) (htoken : token.closesOperand = true) :
    Closes passed :=
  ⟨token, h, htoken⟩

theorem append_left (h : Closes passed) (back : List Token) : Closes (passed ++ back) := by
  obtain ⟨token, htoken, hcloses⟩ := h
  exact of_mem (List.mem_append_left back htoken) hcloses

theorem cons (h : Closes passed) (token : Token) : Closes (token :: passed) := by
  obtain ⟨closing, hclosing, hcloses⟩ := h
  exact of_mem (List.mem_cons_of_mem token hclosing) hcloses

/-- A token that is the last one of no operand is different from one that is. -/
theorem varied (h : Closes passed) {token : Token} (hmem : token ∈ passed)
    (htoken : token.closesOperand = false) : Varied passed := by
  obtain ⟨closing, hclosing, hcloses⟩ := h
  exact ⟨closing, hclosing, token, hmem, Token.ne_of_class hcloses htoken⟩

end Closes

theorem Opened.pass_infixOp (opened : Opened) (op : Grammar.InfixOp) :
    opened.pass op.token = opened := by
  rcases op with op | op <;> cases op <;> rfl

theorem Opened.pass_unaryOp (opened : Opened) (op : UnaryOp) : opened.pass op.token = opened := by
  cases op <;> rfl

theorem Opened.pass_literal (opened : Opened) (value : Literal) :
    opened.pass value.token = opened := by
  cases value with
  | bool value => cases value <;> rfl
  | _ => rfl

theorem Grammar.InfixOp.closesOperand_token (op : Grammar.InfixOp) :
    op.token.closesOperand = false := by
  rcases op with op | op <;> cases op <;> rfl

theorem Literal.closesOperand_token (value : Literal) : value.token.closesOperand = true := by
  cases value with
  | bool value => cases value <;> rfl
  | _ => rfl

namespace Grammar

open Reader

/-- Within the innermost open declaration, the reader walks on and leaves the braces as they are. -/
abbrev Balances {α : Type} (read : Reader α) (cursor : Cursor) (braces : List Brace)
    (good : List Token → Prop) : Prop :=
  read.Turns (Opened.blocks ⟨false, braces⟩ + 1) cursor ⟨false, braces⟩ ⟨false, braces⟩ good

/-- The readers through which the grammar is recursive walk on as long as the fuel outlasts the
tokens ahead and the room for nesting. -/
structure Scope.Turns (scope : Scope) : Prop where
  declaration {room : Nat} {cursor : Cursor} {braces : List Brace}
    (hfuel : 4 * (cursor.rest.length + room) + 2 < scope.fuel) :
    (scope.declaration room).Turns (Opened.blocks ⟨false, braces⟩) cursor ⟨false, braces⟩
      ⟨false, braces⟩ Varied
  statement {room : Nat} {cursor : Cursor} {braces : List Brace}
    (hfuel : 4 * (cursor.rest.length + room) + 1 < scope.fuel) :
    Balances (scope.statement room) cursor braces Varied
  expression {room : Nat} {cursor : Cursor} {braces : List Brace}
    (hfuel : 4 * (cursor.rest.length + room) < scope.fuel) :
    Balances (scope.expression room) cursor braces Closes
  operand {room : Nat} {cursor : Cursor} {braces : List Brace}
    (hfuel : 4 * (cursor.rest.length + room) + 1 < scope.fuel) :
    Balances (scope.operand room) cursor braces Closes

variable {scope : Scope} {room : Nat} {cursor : Cursor} {braces : List Brace}

/-! ## Expressions -/

theorem turns_chain {level : Level} {read : Reader Expr} {bound fuel : Nat} {left : Expr}
    (hread : ∀ {reached : Cursor}, reached.rest.length ≤ bound →
      Balances read reached braces Closes)
    (hbound : cursor.rest.length ≤ bound) (hfuel : cursor.rest.length < fuel) :
    Balances (chain level read fuel left) cursor braces fun _ => True := by
  induction fuel generalizing cursor left with
  | zero => cases hfuel
  | succ fuel ih =>
      rw [chain]
      apply turns_of_truncated
      intro hcursor
      apply turns_peek
      split
      next => exact turns_pure trivial
      next op hop =>
        have htoken := (Level.operator?_eq_some_iff.mp hop).1
        have hadvance := cursor.length_advance_le
        apply turns_next
        rw [htoken, Opened.pass_infixOp]
        apply (hread (hadvance.trans hbound)).bind
        intro right front reached _ hwalks hcloses
        have hpassed : cursor.Walks (op.token :: front) reached := .cons_of_eq htoken hwalks
        -- An operand does not end with an operator, so the two tokens are different.
        have hvaried : Varied (op.token :: front) :=
          (hcloses.cons op.token).varied List.mem_cons_self op.closesOperand_token
        have hlength := hpassed.length_lt hcursor hvaried
        exact ih (by omega) (by omega)

theorem turns_infixed (hscope : scope.Turns) (levels : List Level)
    (hfuel : 4 * (cursor.rest.length + room) + 1 < scope.fuel) :
    Balances (infixed scope room levels) cursor braces Closes := by
  induction levels generalizing cursor with
  | nil => exact hscope.operand hfuel
  | cons level tighter ih =>
      apply (ih hfuel).bind
      intro left front reached _ hwalks hcloses
      have hlength := hwalks.length_le
      have hchain : Balances (chain level (infixed scope room tighter) scope.fuel left) reached
          braces fun _ => True :=
        turns_chain (fun hreached => ih (by omega)) (Nat.le_refl _) (by omega)
      exact hchain.imp fun back _ => hcloses.append_left back

theorem turns_assignment (hscope : scope.Turns)
    (hfuel : 4 * (cursor.rest.length + room) + 1 < scope.fuel) :
    Balances (assignment scope room) cursor braces Closes := by
  apply (turns_infixed hscope Level.all hfuel).bind
  intro target front reached _ hwalks hcloses
  have hlength := hwalks.length_le
  apply turns_eat
  · intro _
    have hadvance := reached.length_advance_le
    apply turns_previousSpan
    apply (hscope.expression (by omega)).bind
    intro value back _ _ _ _
    split
    · exact turns_pure (hcloses.append_left _)
    · exact turns_failAt _
  · exact turns_pure (hcloses.append_left [])

/-- The entries of a listing in parentheses, if there are any. -/
theorem turns_listing {α β : Type} {listing : Listing} {item : Reader α} {fuel : Nat}
    {next : List α → Reader β} {result : List Token → Prop}
    (hitem : ∀ reached : Cursor, reached.rest.length ≤ cursor.rest.length →
      Balances item reached braces Closes)
    (hfuel : cursor.rest.length < fuel)
    (hnext : ∀ values front reached, cursor.Walks front reached →
      Balances (next values) reached braces fun back => result (front ++ back)) :
    Balances (isAhead (.symbol .closeParen) >>= fun empty =>
      if empty then pure [] >>= next
      else separated listing item fuel [] >>= next) cursor braces result := by
  apply turns_isAhead
  intro empty
  split
  · exact hnext [] [] cursor (.nil cursor)
  · have hseparated : Balances (separated listing item fuel []) cursor braces fun _ => True := by
      apply turns_separated _ (Nat.le_refl _) hfuel
      intro reached hreached
      apply (hitem reached hreached).imp
      rintro passed ⟨token, htoken, hcloses⟩
      exact ⟨token, htoken, Token.ne_of_class hcloses rfl⟩
    apply hseparated.bind
    intro values front reached _ hwalks _
    exact hnext values front reached hwalks

theorem turns_parameters (hfuel : cursor.rest.length < scope.fuel) :
    Balances (parameters scope) cursor braces fun _ => True := by
  rw [parameters]
  apply turns_listing _ hfuel
  · intro names front reached hwalks
    apply turns_expectSymbol
    exact fun _ => turns_pure trivial
  · intro reached _
    apply turns_expectName.imp
    rintro _ ⟨text, rfl⟩
    exact .of_mem List.mem_cons_self rfl

/-- What begins behind a brace ends behind one: without the end of input there is no other place to
stop. -/
theorem turns_braced {α β : Type} {item : Reader α} {outer fuel : Nat} {brace : Brace}
    {expected : String} {value : List α → β}
    (hitem : ∀ reached : Cursor, reached.rest.length ≤ cursor.rest.length →
      item.Turns outer reached ⟨false, brace :: braces⟩ ⟨false, brace :: braces⟩ Varied)
    (hfuel : cursor.rest.length < fuel) :
    (collect atBlockEnd item fuel [] >>= fun values =>
      expectSymbol .closeCurly expected >>= fun _ => pure (value values)).Turns outer cursor
        ⟨false, brace :: braces⟩ ⟨false, braces⟩ fun passed => .symbol .closeCurly ∈ passed := by
  apply turns_of_truncated
  intro hcursor
  apply (turns_collect hitem (Nat.le_refl _) hfuel).bind
  intro values front reached hdone hwalks _
  have hstop : (decide (reached.peek.value = .symbol .closeCurly) || reached.atEnd) = true :=
    stop_of_collect hdone
  -- What stops the items is the end of input or a brace, and there is no end of input.
  rw [(hwalks.truncated hcursor).not_atEnd, Bool.or_false, decide_eq_true_eq] at hstop
  apply turns_symbolAhead hstop
  exact turns_pure (List.mem_append_right front List.mem_cons_self)

/-- In a block, each item is a declaration that recovers from its own failures. -/
theorem turns_block (hscope : scope.Turns)
    (hfuel : 4 * (cursor.rest.length + room) + 2 < scope.fuel) :
    (block scope room).Turns (Opened.blocks ⟨false, braces⟩ + 1) cursor ⟨false, .block :: braces⟩
      ⟨false, braces⟩ fun passed => .symbol .closeCurly ∈ passed := by
  have hblocks : Opened.blocks ⟨false, .block :: braces⟩ = Opened.blocks ⟨false, braces⟩ + 1 :=
    List.count_cons_self
  rw [← hblocks, block]
  apply turns_braced _ (by omega)
  intro reached hreached
  exact hscope.declaration (by omega)

/-- The parameters and the body of a function. -/
theorem turns_body {α : Type} {paren curly : String}
    {value : List (Located String) → List Stmt → α} (hscope : scope.Turns)
    (hfuel : cursor.peek.value = .symbol .openParen →
      4 * (cursor.advance.rest.length + room) + 2 < scope.fuel) :
    Balances (expectSymbol .openParen paren >>= fun _ => parameters scope >>= fun names =>
      expectSymbol .openCurly curly >>= fun _ => block scope room >>= fun body =>
      pure (value names body)) cursor braces
      fun passed => .symbol .openParen ∈ passed ∧ .symbol .closeCurly ∈ passed := by
  apply turns_expectSymbol
  intro hpeek
  have hroom := hfuel hpeek
  apply (turns_parameters (by omega)).bind
  intro names front reached _ hwalks _
  have hlength := hwalks.length_le
  apply turns_expectSymbol
  intro _
  have hcurly := reached.length_advance_le
  apply (turns_block hscope (by omega)).bind
  intro body back _ _ _ hmem
  apply turns_pure
  simp [hmem]

theorem turns_lambda (hscope : scope.Turns)
    (hfuel : cursor.peek.value = .symbol .openParen →
      4 * (cursor.advance.rest.length + room) + 2 < scope.fuel) :
    Balances (lambda scope room) cursor braces Closes := by
  apply (turns_body hscope hfuel).imp
  exact fun passed hpassed => .of_mem hpassed.2 rfl

theorem turns_primary (hscope : scope.Turns)
    (hfuel : 4 * (cursor.rest.length + room) < scope.fuel) :
    Balances (primary scope room) cursor braces Closes := by
  rw [primary]
  apply turns_peek
  split
  next value hvalue =>
    have htoken := literal?_eq_some_iff.mp hvalue
    apply turns_next
    rw [htoken, Opened.pass_literal]
    exact turns_pure (.of_mem List.mem_cons_self value.closesOperand_token)
  next =>
    split
    next text htext =>
      apply turns_next
      rw [htext]
      exact turns_pure (.of_mem List.mem_cons_self rfl)
    next hparen =>
      have hadvance := cursor.length_advance_le
      apply turns_next
      rw [hparen]
      apply (hscope.expression (by omega)).bind
      intro inner front _ _ _ hcloses
      apply turns_expectSymbol
      intro _
      exact turns_pure ((hcloses.append_left _).cons _)
    next => exact turns_fail _

theorem turns_arguments (hscope : scope.Turns)
    (hfuel : 4 * (cursor.rest.length + room) < scope.fuel) :
    Balances (arguments scope room) cursor braces fun passed => .symbol .closeParen ∈ passed := by
  rw [arguments]
  apply turns_listing _ (by omega)
  · intro values front reached _
    apply turns_expectSymbol
    intro _
    exact turns_pure (List.mem_append_right front List.mem_cons_self)
  · intro reached hreached
    exact hscope.expression (by omega)

/-- The parentheses of a call are different tokens, so each call leaves fewer tokens ahead. -/
theorem turns_calls (hscope : scope.Turns) {fuel : Nat} {callee : Expr}
    (hroom : 4 * (cursor.rest.length + room) < scope.fuel) (hfuel : cursor.rest.length < fuel) :
    Balances (calls scope room fuel callee) cursor braces fun _ => True := by
  induction fuel generalizing cursor callee with
  | zero => cases hfuel
  | succ fuel ih =>
      rw [calls]
      apply turns_of_truncated
      intro hcursor
      apply turns_eat
      · intro hpeek
        have hadvance := cursor.length_advance_le
        apply (turns_arguments hscope (by omega)).bind
        rintro ⟨values, paren⟩ front reached - hwalks hmem
        have hpassed : cursor.Walks (.symbol .openParen :: front) reached :=
          .cons_of_eq hpeek hwalks
        have hlength := hpassed.length_lt hcursor (varied_cons hmem (by decide))
        exact ih (by omega) (by omega)
      · exact turns_pure trivial

theorem turns_operand (hscope : scope.Turns)
    (hfuel : 4 * (cursor.rest.length + room) < scope.fuel) :
    Balances (operand scope room) cursor braces Closes := by
  have hadvance := cursor.length_advance_le
  apply turns_of_truncated
  intro hcursor
  apply turns_eat
  · intro hfun
    have hlambda : Balances (lambda scope room) cursor.advance braces Closes := by
      apply turns_lambda hscope
      intro hparen
      -- A parenthesis behind the keyword is another token, so the body has fewer tokens ahead.
      have hpassed : cursor.Walks [.keyword .kwFun, .symbol .openParen] cursor.advance.advance :=
        .cons_of_eq hfun (.cons_of_eq hparen (.nil _))
      have hlength := hpassed.length_lt hcursor (varied_cons List.mem_cons_self (by decide))
      omega
    exact hlambda.imp fun passed hcloses => hcloses.cons _
  · apply turns_peek
    split
    next op hop =>
      have htoken := unary?_eq_some_iff.mp hop
      apply turns_next
      rw [htoken, Opened.pass_unaryOp]
      have hnested : Balances (nested scope.operand room) cursor.advance braces Closes :=
        turns_nested fun inner hinner => hscope.operand (by omega)
      apply hnested.bind
      intro right front _ _ _ hcloses
      exact turns_pure ((hcloses.append_left _).cons _)
    next =>
      apply (turns_primary hscope hfuel).bind
      intro callee front reached _ hwalks hcloses
      have hlength := hwalks.length_le
      have hcalls : Balances (calls scope room scope.fuel callee) reached braces fun _ => True :=
        turns_calls hscope (by omega) (by omega)
      exact hcalls.imp fun back _ => hcloses.append_left back

/-! ## Statements -/

theorem turns_someExpression (hscope : scope.Turns)
    (hfuel : 4 * (cursor.rest.length + room) < scope.fuel) :
    Balances (some <$> scope.expression room) cursor braces fun _ => True :=
  ((hscope.expression hfuel).imp fun _ _ => trivial).map

theorem turns_clause (hscope : scope.Turns) {stop : Symbol}
    (hfuel : 4 * (cursor.rest.length + room) < scope.fuel) :
    Balances (clause scope room stop) cursor braces fun _ => True := by
  apply turns_isAhead
  intro missing
  split
  · exact turns_pure trivial
  · exact turns_someExpression hscope hfuel

theorem turns_expressionStatement (hscope : scope.Turns)
    (hfuel : 4 * (cursor.rest.length + room) < scope.fuel) :
    Balances (expressionStatement scope room) cursor braces Varied := by
  apply (hscope.expression hfuel).bind
  intro expr front reached _ _ hcloses
  apply turns_expectSymbol
  intro _
  apply turns_pure
  have hmem : Token.symbol .semicolon ∈ front ++ [.symbol .semicolon] :=
    List.mem_append_right front List.mem_cons_self
  exact (hcloses.append_left _).varied hmem rfl

theorem turns_varDefinition (hscope : scope.Turns)
    (hfuel : 4 * (cursor.rest.length + room) < scope.fuel) :
    Balances (varDefinition scope room) cursor braces
      fun passed => .symbol .semicolon ∈ passed := by
  rw [varDefinition]
  apply turns_expectName.bind
  intro name front named _ hnamed _
  have hname := hnamed.length_le
  apply turns_eat
  · intro _
    have hadvance := named.length_advance_le
    apply (turns_someExpression hscope (by omega)).bind
    intro value back reached _ _ _
    apply turns_expectSymbol
    intro _
    apply turns_pure
    simp
  · apply turns_expectSymbol
    intro _
    apply turns_pure
    simp

theorem turns_forInitializer (hscope : scope.Turns)
    (hfuel : 4 * (cursor.rest.length + room) < scope.fuel) :
    Balances (forInitializer scope room) cursor braces fun _ => True := by
  rw [forInitializer]
  have hadvance := cursor.length_advance_le
  apply turns_eat
  · exact fun _ => turns_pure trivial
  apply turns_eat
  · intro _
    exact ((turns_varDefinition hscope (by omega)).imp fun _ _ => trivial).map
  · exact ((turns_expressionStatement hscope hfuel).imp fun _ _ => trivial).map

theorem turns_forStatement (hscope : scope.Turns)
    (hfuel : 4 * (cursor.rest.length + room) + 1 < scope.fuel) :
    Balances (forStatement scope room) cursor braces fun passed => .symbol .openParen ∈ passed := by
  rw [forStatement]
  apply turns_expectSymbol
  intro _
  have hparen := cursor.length_advance_le
  apply (turns_forInitializer hscope (by omega)).bind
  intro initializer _ first _ hfirst _
  have hinitializer := hfirst.length_le
  apply (turns_clause hscope (by omega)).bind
  intro condition _ second _ hsecond _
  have hcondition := hsecond.length_le
  apply turns_expectSymbol
  intro _
  have hsemicolon := second.length_advance_le
  apply (turns_clause hscope (by omega)).bind
  intro increment _ third _ hthird _
  have hincrement := hthird.length_le
  apply turns_expectSymbol
  intro _
  have hclose := third.length_advance_le
  apply (hscope.statement (by omega)).bind
  intro body _ _ _ _ _
  exact turns_pure List.mem_cons_self

theorem turns_ifStatement (hscope : scope.Turns)
    (hfuel : 4 * (cursor.rest.length + room) + 1 < scope.fuel) :
    Balances (ifStatement scope room) cursor braces fun passed => .symbol .openParen ∈ passed := by
  rw [ifStatement]
  apply turns_expectSymbol
  intro _
  have hparen := cursor.length_advance_le
  apply (hscope.expression (by omega)).bind
  intro condition _ first _ hfirst _
  have hcondition := hfirst.length_le
  apply turns_expectSymbol
  intro _
  have hclose := first.length_advance_le
  apply (hscope.statement (by omega)).bind
  intro thenBranch _ second _ hsecond _
  have hthen := hsecond.length_le
  apply turns_eat
  · intro _
    have helse := second.length_advance_le
    apply (hscope.statement (by omega)).bind
    intro elseBranch _ _ _ _ _
    exact turns_pure List.mem_cons_self
  · exact turns_pure List.mem_cons_self

theorem turns_printStatement (hscope : scope.Turns)
    (hfuel : 4 * (cursor.rest.length + room) < scope.fuel) :
    Balances (printStatement scope room) cursor braces
      fun passed => .symbol .semicolon ∈ passed := by
  apply (hscope.expression hfuel).bind
  intro value front _ _ _ _
  apply turns_expectSymbol
  intro _
  exact turns_pure (List.mem_append_right front List.mem_cons_self)

theorem turns_returnStatement (hscope : scope.Turns)
    (hfuel : 4 * (cursor.rest.length + room) < scope.fuel) :
    Balances (returnStatement scope room) cursor braces
      fun passed => .symbol .semicolon ∈ passed := by
  apply turns_previousSpan
  apply (turns_clause hscope hfuel).bind
  intro value front _ _ _ _
  apply turns_expectSymbol
  intro _
  exact turns_pure (List.mem_append_right front List.mem_cons_self)

theorem turns_whileStatement (hscope : scope.Turns)
    (hfuel : 4 * (cursor.rest.length + room) + 1 < scope.fuel) :
    Balances (whileStatement scope room) cursor braces
      fun passed => .symbol .openParen ∈ passed := by
  rw [whileStatement]
  apply turns_expectSymbol
  intro _
  have hparen := cursor.length_advance_le
  apply (hscope.expression (by omega)).bind
  intro condition _ reached _ hreached _
  have hcondition := hreached.length_le
  apply turns_expectSymbol
  intro _
  have hclose := reached.length_advance_le
  apply (hscope.statement (by omega)).bind
  intro body _ _ _ _ _
  exact turns_pure List.mem_cons_self

theorem turns_statement (hscope : scope.Turns)
    (hfuel : 4 * (cursor.rest.length + room) + 2 < scope.fuel) :
    Balances (statement scope room) cursor braces Varied := by
  rw [statement]
  have hadvance := cursor.length_advance_le
  apply turns_eat
  · intro _
    exact (turns_forStatement hscope (by omega)).imp fun _ hmem => varied_cons hmem (by decide)
  apply turns_eat
  · intro _
    exact (turns_ifStatement hscope (by omega)).imp fun _ hmem => varied_cons hmem (by decide)
  apply turns_eat
  · intro _
    exact (turns_printStatement hscope (by omega)).imp fun _ hmem => varied_cons hmem (by decide)
  apply turns_eat
  · intro _
    exact (turns_returnStatement hscope (by omega)).imp fun _ hmem => varied_cons hmem (by decide)
  apply turns_eat
  · intro _
    exact (turns_whileStatement hscope (by omega)).imp fun _ hmem => varied_cons hmem (by decide)
  apply turns_eat
  · intro _
    have hblock : (block scope room).Turns (Opened.blocks ⟨false, braces⟩ + 1) cursor.advance
        ⟨false, .block :: braces⟩ ⟨false, braces⟩
        fun passed => Varied (.symbol .openCurly :: passed) :=
      (turns_block hscope (by omega)).imp fun _ hmem => varied_cons hmem (by decide)
    exact hblock.map
  · exact turns_expressionStatement hscope (by omega)

/-! ## Declarations -/

theorem turns_function (hscope : scope.Turns) (kind : String)
    (hfuel : 4 * (cursor.rest.length + room) < scope.fuel) :
    Balances (function scope room kind) cursor braces
      fun passed => Varied passed ∧ .symbol .openParen ∈ passed := by
  apply turns_of_truncated
  intro hcursor
  apply turns_expectName.bind
  rintro name _ named - hnamed ⟨text, rfl⟩
  -- The room for nesting stays as it is, so the body needs fewer tokens ahead than the name.
  have hparen (hpeek : named.peek.value = .symbol .openParen) :
      4 * (named.advance.rest.length + room) + 2 < scope.fuel := by
    have hpassed : cursor.Walks [.name text, .symbol .openParen] named.advance :=
      hnamed.append (.cons_of_eq hpeek (.nil _))
    have hlength := hpassed.length_lt hcursor (varied_cons List.mem_cons_self nofun)
    omega
  apply (turns_body hscope hparen).imp
  rintro passed ⟨hmem, -⟩
  exact ⟨varied_cons hmem nofun, List.mem_cons_of_mem _ hmem⟩

/-- In a class body, the items are no declarations of their own. -/
theorem turns_classDefinition (hscope : scope.Turns)
    (hfuel : 4 * (cursor.rest.length + room) < scope.fuel) :
    (classDefinition scope room).Turns (Opened.blocks ⟨true, braces⟩ + 1) cursor ⟨true, braces⟩
      ⟨false, braces⟩ fun passed => .symbol .openCurly ∈ passed := by
  have hblocks : Opened.blocks ⟨false, .classBody :: braces⟩ = Opened.blocks ⟨true, braces⟩ :=
    List.count_cons_of_ne (by decide)
  rw [classDefinition]
  apply turns_expectName.bind
  rintro name _ named - hnamed ⟨text, rfl⟩
  have hname := hnamed.length_le
  apply turns_expectSymbol
  intro _
  have hcurly := named.length_advance_le
  have hbody : (collect atBlockEnd (function scope room "method") scope.fuel [] >>= fun methods =>
      expectSymbol .closeCurly "`\x7d` after class body" >>= fun _ =>
      pure (Stmt.classDef name methods)).Turns (Opened.blocks ⟨true, braces⟩ + 1) named.advance
        ⟨false, .classBody :: braces⟩ ⟨false, braces⟩
        fun passed => .symbol .closeCurly ∈ passed := by
    apply turns_braced _ (by omega)
    intro reached hreached
    rw [← hblocks]
    exact (turns_function hscope "method" (by omega)).imp fun _ hpassed => hpassed.1
  apply hbody.imp
  simp

theorem turns_declaration (hscope : scope.Turns)
    (hfuel : 4 * (cursor.rest.length + room) + 1 < scope.fuel) :
    (declaration scope room).Turns (Opened.blocks ⟨false, braces⟩) cursor ⟨false, braces⟩
      ⟨false, braces⟩ Varied := by
  have hadvance := cursor.length_advance_le
  apply turns_recovering
  apply turns_eat
  · intro _
    exact (turns_classDefinition hscope (by omega)).imp fun _ hmem => varied_cons hmem (by decide)
  apply turns_eat
  · intro _
    have hfunction : Balances (function scope room "function") cursor.advance braces
        fun passed => Varied (.keyword .kwFun :: passed) :=
      (turns_function hscope "function" (by omega)).imp fun _ hmem => varied_cons hmem.2 (by decide)
    exact hfunction.map
  apply turns_eat
  · intro _
    exact (turns_varDefinition hscope (by omega)).imp fun _ hmem => varied_cons hmem (by decide)
  · exact hscope.statement hfuel

/-! ## The knot -/

/-- One round of the knot takes one of the fuel, and a level of nesting or a token passed gives back
four. So no rule runs short of what the next one needs: two above the bound for a declaration, one
for a statement or an operand, none for an expression. -/
theorem scopeWith_turns (fuel : Nat) : (scopeWith fuel).Turns := by
  induction fuel with
  | zero =>
      rw [scopeWith_zero]
      exact ⟨nofun, nofun, nofun, nofun⟩
  | succ fuel ih =>
      rw [scopeWith_succ]
      constructor
      · intro room cursor braces hfuel
        exact turns_declaration ih (Nat.lt_of_succ_lt_succ hfuel)
      · intro room cursor braces hfuel
        apply turns_nested
        rintro inner rfl
        have hfuel : 4 * (cursor.rest.length + (inner + 1)) + 1 < fuel + 1 := hfuel
        exact turns_statement ih (show _ < fuel by omega)
      · intro room cursor braces hfuel
        apply turns_nested
        rintro inner rfl
        have hfuel : 4 * (cursor.rest.length + (inner + 1)) < fuel + 1 := hfuel
        exact turns_assignment ih (show _ < fuel by omega)
      · intro room cursor braces hfuel
        exact turns_operand ih (Nat.lt_of_succ_lt_succ hfuel)

/-! ## Programs -/

/-- In a truncated stream a program is read up to a failure, from which the declarations that are
open there recover one by one. -/
theorem program_of_truncated {fuel : Nat} (hcursor : cursor.Truncated)
    (hfuel : 4 * (cursor.rest.length + maxDepth) + 2 < fuel) :
    ∃ error passed stop, cursor.Walks passed stop ∧
      program fuel cursor = .failed error (stop.recover (openDeclarations passed)) ∧
      (error.value = .invalidAssignmentTarget ∨ error.span = stop.peek.span) := by
  have hread : (program fuel).Turns (Opened.blocks ⟨false, []⟩) cursor ⟨false, []⟩ ⟨false, []⟩
      fun _ => True := by
    apply turns_collect _ (Nat.le_refl _) (by omega)
    intro reached hreached
    exact (scopeWith_turns fuel).declaration (show _ < fuel by omega)
  have houtcome := hread hcursor
  cases hprogram : program fuel cursor with
  | unfinished =>
      rw [hprogram] at houtcome
      cases houtcome
  | done statements reached =>
      rw [hprogram] at houtcome
      cases houtcome with
      | done hwalks =>
          -- Declarations are collected up to the end of input, which is not there.
          have hstop : reached.atEnd = true := stop_of_collect hprogram
          cases hstop.symm.trans (hwalks.truncated hcursor).not_atEnd
  | failed error recovery =>
      rw [hprogram] at houtcome
      cases houtcome with
      | @failed _ passed stop times hwalks htimes hplace =>
          obtain rfl : times = openDeclarations passed := htimes
          exact ⟨error, passed, stop, hwalks, rfl, hplace⟩

/-- In the body of a method two declarations are open, the class and the one in the body. -/
example :
    openDeclarations [.keyword .kwClass, .name "A", .symbol .openCurly, .name "m",
      .symbol .openParen, .symbol .closeParen, .symbol .openCurly, .keyword .kwVar] = 2 := by
  decide

end Grammar

end Stacklet
