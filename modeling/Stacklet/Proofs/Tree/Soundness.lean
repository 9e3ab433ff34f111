import Mathlib.Data.List.Infix
import Stacklet.Proofs.Tree.Outcomes

/-! # What the grammar reads is canonical

Every rule gives a canonical tree that is written as the tokens passed, if the readers that it
refers back to do. Rules that recur on fuel are followed along the fuel, and the knot is tied by
induction on it.
-/

namespace Stacklet

/-- Expressions that fit a place: canonical, at least as tight as the place demands, and with no
more levels of nesting within than there is room for. -/
structure Expr.Fits (tightness room : Nat) (expr : Expr) : Prop where
  canonical : expr.Canonical
  le_rank : tightness ≤ expr.rank
  depth_le : expr.depth ≤ room

namespace Grammar

open Reader

/-- What is known of an expression, where a place demands some tightness. -/
def ReadsExpr (tightness room : Nat) (expr : Expr) (passed : List (Located Token)) : Prop :=
  Written expr.marks passed ∧ expr.Fits tightness room

/-- What is known of a full expression. -/
def ReadsFull (room : Nat) (expr : Expr) (passed : List (Located Token)) : Prop :=
  Written expr.marks passed ∧ expr.Canonical ∧ expr.depth + 1 ≤ room

/-- What is known of a declaration or a statement in its place. -/
def ReadsDeclaration (room : Nat) (stmt : Stmt) (passed : List (Located Token)) : Prop :=
  Written stmt.marks passed ∧ stmt.Canonical ∧ stmt.looksDeclared = false ∧ stmt.depth ≤ room

/-- What is known of a statement and the token behind it. -/
structure ReadsStatement (room : Nat) (stmt : Stmt) (passed : List (Located Token))
    (after : Cursor) : Prop where
  written : Written stmt.marks passed
  canonical : stmt.Canonical
  depth_le : stmt.depth ≤ room
  not_declaration : stmt.isDeclaration = false
  not_else : stmt.isOpen → after.peek.value ≠ .keyword .kwElse

/-- The readers through which the grammar is recursive read what they should. -/
structure Scope.Sound (scope : Scope) : Prop where
  declaration (room : Nat) (cursor : Cursor) :
    (scope.declaration room).Gives cursor fun stmt passed _ => ReadsDeclaration room stmt passed
  statement (room : Nat) (cursor : Cursor) :
    (scope.statement room).Gives cursor (ReadsStatement room)
  expression (room : Nat) (cursor : Cursor) :
    (scope.expression room).Gives cursor fun expr passed _ => ReadsFull room expr passed
  operand (room : Nat) (cursor : Cursor) :
    (scope.operand room).Gives cursor fun expr passed _ => ReadsExpr 7 room expr passed

variable {scope : Scope} {room : Nat} {cursor : Cursor}

/-! ## Operators -/

/-- How tight an expression with operators of the given levels is at least. -/
def tightness : List Level → Nat
  | [] => 7
  | level :: _ => level.rank

theorem tightness_tighter {level : Level} {tighter : List Level}
    (h : level :: tighter <:+ Level.all) : tightness tighter = level.rank + 1 := by
  have hmem : level :: tighter ∈ Level.all.tails := (List.mem_tails _ _).mpr h
  simp only [Level.all, List.tails, List.mem_cons, List.cons.injEq, List.not_mem_nil, or_false,
    reduceCtorEq] at hmem
  rcases hmem with ⟨rfl, rfl⟩ | ⟨rfl, rfl⟩ | ⟨rfl, rfl⟩ | ⟨rfl, rfl⟩ | ⟨rfl, rfl⟩ | ⟨rfl, rfl⟩ <;>
    rfl

theorem InfixOp.token_ne_endOfInput (op : InfixOp) : op.token ≠ .endOfInput := by
  rcases op with op | op <;> cases op <;> exact nofun

theorem ReadsExpr.apply {level : Level} {op : InfixOp} {left right : Expr}
    {front back : List (Located Token)} {token : Located Token} (hrank : op.rank = level.rank)
    (htoken : token.value = op.token) (hleft : ReadsExpr level.rank room left front)
    (hright : ReadsExpr (level.rank + 1) room right back) :
    ReadsExpr level.rank room (op.apply left token.span right) (front ++ token :: back) := by
  refine ⟨?_, ?_, ?_, ?_⟩
  · rw [InfixOp.marks_apply]
    exact hleft.1.append (hright.1.cons (Mark.matches_placed.mpr (by rw [← htoken])))
  · refine (InfixOp.canonical_apply op).mpr ⟨hleft.2.canonical, hright.2.canonical, ?_, ?_⟩
    · exact hrank ▸ hleft.2.le_rank
    · exact hrank ▸ hright.2.le_rank
  · rw [InfixOp.rank_apply, hrank]
  · rw [InfixOp.depth_apply]
    exact Nat.max_le.mpr ⟨hleft.2.depth_le, hright.2.depth_le⟩

/-- A chain makes one expression of what was read so far and what it reads itself. -/
theorem gives_chain {level : Level} {operand : Reader Expr}
    (hoperand : ∀ cursor, operand.Gives cursor fun expr passed _ =>
      ReadsExpr (level.rank + 1) room expr passed)
    (fuel : Nat) {left : Expr} {front : List (Located Token)}
    (hleft : ReadsExpr level.rank room left front) :
    (chain level operand fuel left).Gives cursor fun expr back _ =>
      ReadsExpr level.rank room expr (front ++ back) := by
  induction fuel generalizing left front cursor with
  | zero => exact gives_unfinished
  | succ fuel ih =>
      rw [chain]
      refine gives_peek ?_
      split
      next hnone =>
        refine gives_pure ?_
        rwa [List.append_nil]
      next op hop =>
        -- What was read so far becomes the left side of the operator.
        obtain ⟨htoken, hrank⟩ := Level.operator?_eq_some_iff.mp hop
        refine gives_next (htoken ▸ op.token_ne_endOfInput) fun token after hvalue => ?_
        refine (hoperand after).bind fun right passed last hright => ?_
        refine (ih (hleft.apply hrank (hvalue.trans htoken) hright)).imp ?_
        intro expr back _ _ hexpr
        rwa [List.append_assoc] at hexpr

theorem gives_infixed (hscope : scope.Sound) {levels : List Level} (h : levels <:+ Level.all) :
    (infixed scope room levels).Gives cursor fun expr passed _ =>
      ReadsExpr (tightness levels) room expr passed := by
  induction levels generalizing cursor with
  | nil => exact hscope.operand room cursor
  | cons level tighter ih =>
      have htighter := (List.suffix_cons level tighter).trans h
      have hoperand : ∀ cursor, (infixed scope room tighter).Gives cursor fun expr passed _ =>
          ReadsExpr (level.rank + 1) room expr passed := by
        intro cursor
        rw [← tightness_tighter h]
        exact ih htighter
      rw [infixed]
      refine (hoperand cursor).bind fun left front middle hleft => ?_
      exact gives_chain hoperand scope.fuel
        ⟨hleft.1, hleft.2.canonical, Nat.le_of_succ_le hleft.2.le_rank, hleft.2.depth_le⟩

theorem gives_assignment (hscope : scope.Sound) :
    (assignment scope room).Gives cursor fun expr passed _ => ReadsExpr 0 room expr passed := by
  rw [assignment]
  refine (gives_infixed hscope List.suffix_rfl).bind fun target front middle htarget => ?_
  refine gives_eat nofun ?_ ?_
  · rintro - equals after hequals -
    refine gives_previousSpan ?_
    refine (hscope.expression room after).bind fun value passed last hvalue => ?_
    split
    next name =>
      have hname : Written [.name name] front := htarget.1
      refine gives_pure ⟨?_, hvalue.2.1, Nat.zero_le _, hvalue.2.2⟩
      rw [List.append_nil]
      exact hname.append (hvalue.1.cons (Mark.matches_symbol.mpr hequals))
    next => exact gives_failAt .invalidAssignmentTarget _
  · intro _
    refine gives_pure ⟨?_, htarget.2.canonical, Nat.zero_le _, htarget.2.depth_le⟩
    rw [List.append_nil]
    exact htarget.1

/-! ## Operands -/

theorem gives_parameters :
    (parameters scope).Gives cursor fun names passed _ =>
      Written (listed (names.map fun name => [.name name]) ++ [.symbol .closeParen]) passed ∧
        names.length ≤ maxListed := by
  have hname : ∀ cursor, (expectName "parameter name").Gives cursor fun name passed _ =>
      Written [.name name] passed ∧ True := by
    intro cursor
    exact gives_expectName.imp fun _ _ _ _ hname => ⟨hname, trivial⟩
  rw [parameters]
  refine gives_listing hname fun names front after hnames hlength _ => ?_
  refine gives_expectSymbol fun close last hclose => ?_
  exact gives_pure ⟨hnames.append (.cons (Mark.matches_symbol.mpr hclose) .nil), hlength⟩

theorem gives_block (hscope : scope.Sound) :
    (block scope room).Gives cursor fun body passed _ =>
      Written (Stmt.marksOf body ++ [.symbol .closeCurly]) passed ∧ Stmt.AllCanonical body ∧
        Stmt.depthOf body ≤ room := by
  rw [block]
  refine (gives_collect (hscope.declaration room) scope.fuel []).bind ?_
  rintro _ front middle ⟨body, rfl, hsequence, -⟩
  obtain ⟨hwritten, hbody⟩ := sequence_iff.mp hsequence
  refine gives_expectSymbol fun close after hclose => ?_
  refine gives_pure ⟨?_, Stmt.all_iff.mpr hbody⟩
  rw [Stmt.marksOf_eq]
  exact hwritten.append (.cons (Mark.matches_symbol.mpr hclose) .nil)

theorem gives_lambda (hscope : scope.Sound) {word : Located Token}
    (hword : word.value = .keyword .kwFun) :
    (lambda scope room).Gives cursor fun expr passed _ =>
      ReadsExpr 7 room expr (word :: passed) := by
  rw [lambda]
  refine gives_expectSymbol fun paren after hparen => ?_
  refine gives_parameters.bind fun names front middle hnames => ?_
  refine gives_expectSymbol fun curly after' hcurly => ?_
  refine (gives_block hscope).bind fun body back last hbody => ?_
  refine gives_pure ⟨?_, ⟨hnames.2, hbody.2.1⟩, Nat.le_refl _, hbody.2.2⟩
  rw [List.append_nil]
  exact (written_body.mpr ⟨_, _, _, _, rfl, hparen, hnames.1, hcurly, hbody.1⟩).cons
    (Mark.matches_keyword.mpr hword)

theorem gives_primary (hscope : scope.Sound) :
    (primary scope room).Gives cursor fun expr passed _ => ReadsExpr 8 room expr passed := by
  rw [primary]
  refine gives_peek ?_
  split
  next value hliteral =>
    rw [literal?_eq_some_iff] at hliteral
    refine gives_next (hliteral ▸ value.token_ne_endOfInput) fun token after htoken => ?_
    refine gives_pure ⟨.cons ?_ .nil, trivial, Nat.le_succ 8, Nat.zero_le _⟩
    exact Mark.matches_placed.mpr (by rw [← hliteral, ← htoken])
  next =>
    split
    next text hname =>
      refine gives_next (hname ▸ nofun) fun token after htoken => ?_
      refine gives_pure ⟨.cons ?_ .nil, trivial, Nat.le_succ 8, Nat.zero_le _⟩
      exact Mark.matches_name.mpr (by rw [← hname, ← htoken])
    next hparen =>
      refine gives_next (hparen ▸ nofun) fun token after htoken => ?_
      refine (hscope.expression room after).bind fun inner front middle hinner => ?_
      refine gives_expectSymbol fun close last hclose => ?_
      refine gives_pure ⟨.cons ?_ ?_, hinner.2.1, Nat.le_succ 8, hinner.2.2⟩
      · exact Mark.matches_symbol.mpr (htoken.trans hparen)
      · exact hinner.1.append (.cons (Mark.matches_symbol.mpr hclose) .nil)
    next => exact gives_fail _

theorem gives_arguments (hscope : scope.Sound) :
    (arguments scope room).Gives cursor fun (values, paren) passed _ =>
      Written (listed (Expr.marksOf values) ++ [.placed (.symbol .closeParen) paren]) passed ∧
        values.length ≤ maxListed ∧ Expr.AllCanonical values ∧ Expr.depthOf values ≤ room := by
  rw [arguments]
  refine gives_listing (hscope.expression room) fun values front after hvalues hlength hfull => ?_
  refine gives_expectSymbol fun close last hclose => ?_
  refine gives_pure ⟨?_, hlength, Expr.all_iff.mpr hfull⟩
  rw [Expr.marksOf_eq]
  exact hvalues.append (.cons (Mark.matches_placed.mpr (by rw [← hclose])) .nil)

/-- Calls are made of what was read so far and what is read behind it. -/
theorem gives_calls (hscope : scope.Sound) (fuel : Nat) {callee : Expr}
    {front : List (Located Token)} (hcallee : ReadsExpr 8 room callee front) :
    (calls scope room fuel callee).Gives cursor fun expr back _ =>
      ReadsExpr 8 room expr (front ++ back) := by
  induction fuel generalizing callee front cursor with
  | zero => exact gives_unfinished
  | succ fuel ih =>
      rw [calls]
      refine gives_eat nofun ?_ ?_
      · rintro - paren after hparen -
        refine (gives_arguments hscope).bind ?_
        rintro ⟨values, close⟩ passed last ⟨hwritten, hlength, hcanonical, hdepth⟩
        have hcall : ReadsExpr 8 room (.call callee close values) (front ++ paren :: passed) := by
          refine ⟨hcallee.1.append (hwritten.cons (Mark.matches_symbol.mpr hparen)), ?_⟩
          exact ⟨⟨hcallee.2.canonical, hcallee.2.le_rank, hlength, hcanonical⟩, Nat.le_refl 8,
            Nat.max_le.mpr ⟨hcallee.2.depth_le, hdepth⟩⟩
        refine (ih hcall).imp ?_
        intro expr back _ _ hexpr
        rwa [List.append_assoc] at hexpr
      · intro _
        refine gives_pure ?_
        rwa [List.append_nil]

theorem gives_nestedOperand (hscope : scope.Sound) :
    (nested scope.operand room).Gives cursor fun expr passed _ =>
      Written expr.marks passed ∧ expr.Canonical ∧ 7 ≤ expr.rank ∧ expr.depth + 1 ≤ room := by
  refine gives_nested fun inner hroom => (hscope.operand inner cursor).imp ?_
  rintro expr passed _ _ ⟨hwritten, hfits⟩
  exact ⟨hwritten, hfits.canonical, hfits.le_rank, hroom ▸ Nat.succ_le_succ hfits.depth_le⟩

theorem gives_operand (hscope : scope.Sound) :
    (operand scope room).Gives cursor fun expr passed _ => ReadsExpr 7 room expr passed := by
  rw [operand]
  refine gives_eat nofun ?_ ?_
  · rintro - word after hword -
    exact gives_lambda hscope hword
  · intro _
    refine gives_peek ?_
    split
    next op hop =>
      rw [unary?_eq_some_iff] at hop
      refine gives_next (hop ▸ op.token_ne_endOfInput) fun token after htoken => ?_
      refine (gives_nestedOperand hscope).bind fun right passed last hright => ?_
      obtain ⟨hwritten, hcanonical, hrank, hdepth⟩ := hright
      refine gives_pure ⟨?_, ⟨hcanonical, hrank⟩, Nat.le_refl 7, hdepth⟩
      rw [List.append_nil]
      exact hwritten.cons (Mark.matches_placed.mpr (by rw [← hop, ← htoken]))
    next =>
      refine (gives_primary hscope).bind fun callee front middle hcallee => ?_
      refine (gives_calls hscope scope.fuel hcallee).imp ?_
      rintro expr back _ _ ⟨hwritten, hfits⟩
      exact ⟨hwritten, hfits.canonical, Nat.le_of_succ_le hfits.le_rank, hfits.depth_le⟩

/-! ## Statements -/

theorem gives_expressionStatement (hscope : scope.Sound) :
    (expressionStatement scope room).Gives cursor (ReadsStatement (room + 1)) := by
  rw [expressionStatement]
  refine (hscope.expression room cursor).bind fun expr front middle hexpr => ?_
  refine gives_expectSymbol fun close after hclose => ?_
  refine gives_pure ⟨?_, hexpr.2.1, Nat.succ_le_succ hexpr.2.2, rfl, nofun⟩
  exact hexpr.1.append (.cons (Mark.matches_symbol.mpr hclose) .nil)

theorem gives_someExpression (hscope : scope.Sound) :
    (some <$> scope.expression room).Gives cursor fun value passed _ =>
      ∃ expr, value = some expr ∧ ReadsFull room expr passed := by
  refine Gives.map ((hscope.expression room cursor).imp ?_)
  intro expr passed _ _ hexpr
  exact ⟨expr, rfl, hexpr⟩

theorem gives_clause (hscope : scope.Sound) {stop : Symbol} :
    (clause scope room stop).Gives cursor fun value passed _ =>
      value = none ∧ passed = [] ∨ ∃ expr, value = some expr ∧ ReadsFull room expr passed := by
  rw [clause]
  refine gives_isAhead ?_ ?_
  · intro _
    exact gives_pure (.inl ⟨rfl, rfl⟩)
  · intro _
    exact (gives_someExpression hscope).imp fun _ _ _ _ hvalue => .inr hvalue

theorem gives_ifStatement (hscope : scope.Sound) {word : Located Token}
    (hword : word.value = .keyword .kwIf) :
    (ifStatement scope room).Gives cursor fun stmt passed after =>
      ReadsStatement (room + 1) stmt (word :: passed) after := by
  rw [ifStatement]
  refine gives_expectSymbol fun paren _ hparen => ?_
  refine (hscope.expression room _).bind fun condition front _ hcondition => ?_
  refine gives_expectSymbol fun close _ hclose => ?_
  refine (hscope.statement room _).bind fun thenBranch thenTokens behind hthen => ?_
  refine gives_eat nofun ?_ ?_
  · rintro hpeek other after hother -
    -- An open branch would have taken the `else` itself.
    have hclosed : thenBranch.isOpen = false :=
      Bool.eq_false_iff.mpr fun hopen => hthen.not_else hopen hpeek
    refine (hscope.statement room after).bind fun elseBranch elseTokens last helse => ?_
    refine gives_pure ⟨?_, ⟨hcondition.2.1, hthen.canonical, hthen.not_declaration, hclosed,
      helse.canonical, helse.not_declaration⟩, ?_, rfl, helse.not_else⟩
    · have harms := hthen.written.append (helse.written.cons (Mark.matches_keyword.mpr hother))
      rw [List.append_nil]
      exact written_condition.mpr ⟨_, _, _, _, _, rfl, hword, hparen, hcondition.1, hclose, harms⟩
    · exact Nat.succ_le_succ (Nat.max_le.mpr
        ⟨hcondition.2.2, Nat.max_le.mpr ⟨hthen.depth_le, helse.depth_le⟩⟩)
  · intro hpeek
    refine gives_pure ⟨?_, ⟨hcondition.2.1, hthen.canonical, hthen.not_declaration⟩, ?_, rfl,
      fun _ => hpeek⟩
    · rw [List.append_nil]
      exact written_condition.mpr
        ⟨_, _, _, _, _, rfl, hword, hparen, hcondition.1, hclose, hthen.written⟩
    · exact Nat.succ_le_succ (Nat.max_le.mpr ⟨hcondition.2.2, hthen.depth_le⟩)

theorem gives_printStatement (hscope : scope.Sound) {word : Located Token}
    (hword : word.value = .keyword .kwPrint) :
    (printStatement scope room).Gives cursor fun stmt passed after =>
      ReadsStatement (room + 1) stmt (word :: passed) after := by
  rw [printStatement]
  refine (hscope.expression room cursor).bind fun expr front middle hexpr => ?_
  refine gives_expectSymbol fun close after hclose => ?_
  refine gives_pure ⟨?_, hexpr.2.1, Nat.succ_le_succ hexpr.2.2, rfl, nofun⟩
  exact (hexpr.1.append (.cons (Mark.matches_symbol.mpr hclose) .nil)).cons
    (Mark.matches_keyword.mpr hword)

theorem gives_returnStatement (hscope : scope.Sound)
    (hword : cursor.previous.value = .keyword .kwReturn) :
    (returnStatement scope room).Gives cursor fun stmt passed after =>
      ReadsStatement (room + 1) stmt (cursor.previous :: passed) after := by
  have hmark : (Mark.placed (.keyword .kwReturn) cursor.previous.span).Matches cursor.previous :=
    Mark.matches_placed.mpr (by rw [← hword])
  rw [returnStatement]
  refine gives_previousSpan ?_
  refine (gives_clause hscope).bind fun value front middle hvalue => ?_
  refine gives_expectSymbol fun close after hclose => gives_pure ?_
  have hclose : Written [.symbol .semicolon] [close] :=
    .cons (Mark.matches_symbol.mpr hclose) .nil
  rcases hvalue with ⟨rfl, rfl⟩ | ⟨expr, rfl, hexpr⟩
  · exact ⟨hclose.cons hmark, trivial, Nat.le_add_left 1 room, rfl, nofun⟩
  · exact ⟨(hexpr.1.append hclose).cons hmark, hexpr.2.1, Nat.succ_le_succ hexpr.2.2, rfl, nofun⟩

theorem gives_whileStatement (hscope : scope.Sound) {word : Located Token}
    (hword : word.value = .keyword .kwWhile) :
    (whileStatement scope room).Gives cursor fun stmt passed after =>
      ReadsStatement (room + 1) stmt (word :: passed) after := by
  rw [whileStatement]
  refine gives_expectSymbol fun paren _ hparen => ?_
  refine (hscope.expression room _).bind fun condition front _ hcondition => ?_
  refine gives_expectSymbol fun close _ hclose => ?_
  refine (hscope.statement room _).bind fun body bodyTokens behind hbody => ?_
  refine gives_pure ⟨?_, ⟨hcondition.2.1, hbody.canonical, hbody.not_declaration⟩, ?_, rfl,
    hbody.not_else⟩
  · rw [List.append_nil]
    exact written_condition.mpr
      ⟨_, _, _, _, _, rfl, hword, hparen, hcondition.1, hclose, hbody.written⟩
  · exact Nat.succ_le_succ (Nat.max_le.mpr ⟨hcondition.2.2, hbody.depth_le⟩)

theorem gives_statement (hscope : scope.Sound) :
    (statement scope room).Gives cursor (ReadsStatement (room + 1)) := by
  refine gives_of_plain fun hplain => ?_
  rw [statement]
  refine gives_eat nofun (fun hpeek => absurd hpeek hplain.peek_ne_for) fun _ => ?_
  refine gives_eat nofun ?_ fun _ => ?_
  · rintro - word after hword -
    exact gives_ifStatement hscope hword
  refine gives_eat nofun ?_ fun _ => ?_
  · rintro - word after hword -
    exact gives_printStatement hscope hword
  refine gives_eat nofun ?_ fun _ => ?_
  · rintro - word after hword rfl
    exact gives_returnStatement hscope hword
  refine gives_eat nofun ?_ fun _ => ?_
  · rintro - word after hword -
    exact gives_whileStatement hscope hword
  refine gives_eat nofun ?_ fun _ => ?_
  · rintro - curly after hcurly -
    refine Gives.map ((gives_block hscope).imp ?_)
    rintro body passed _ _ ⟨hwritten, hcanonical, hdepth⟩
    exact ⟨hwritten.cons (Mark.matches_symbol.mpr hcurly), hcanonical, Nat.succ_le_succ hdepth, rfl,
      nofun⟩
  exact gives_expressionStatement hscope

/-! ## Declarations -/

theorem gives_function (hscope : scope.Sound) (kind : String) :
    (function scope room kind).Gives cursor fun function passed _ =>
      Written function.marks passed ∧ function.Canonical ∧ function.depth ≤ room := by
  rw [function]
  refine gives_expectName.bind fun name front _ hname => ?_
  refine gives_expectSymbol fun paren _ hparen => ?_
  refine gives_parameters.bind fun names nameTokens _ hnames => ?_
  refine gives_expectSymbol fun curly _ hcurly => ?_
  refine (gives_block hscope).bind fun body back _ hbody => ?_
  refine gives_pure ⟨?_, ⟨hnames.2, hbody.2.1⟩, hbody.2.2⟩
  rw [List.append_nil]
  exact hname.append (written_body.mpr ⟨_, _, _, _, rfl, hparen, hnames.1, hcurly, hbody.1⟩)

theorem gives_varDefinition (hscope : scope.Sound) {word : Located Token}
    (hword : word.value = .keyword .kwVar) :
    (varDefinition scope room).Gives cursor fun stmt passed _ =>
      ReadsDeclaration room stmt (word :: passed) := by
  have hmark := Mark.matches_keyword.mpr hword
  rw [varDefinition]
  refine gives_expectName.bind fun name front _ hname => ?_
  refine gives_eat nofun ?_ ?_
  · rintro - equals after hequals -
    refine (gives_someExpression hscope).bind ?_
    rintro _ back _ ⟨expr, rfl, hexpr⟩
    refine gives_expectSymbol fun close _ hclose => ?_
    refine gives_pure ⟨?_, hexpr.2.1, rfl, hexpr.2.2⟩
    have hvalue := hexpr.1.append (.cons (Mark.matches_symbol.mpr hclose) .nil)
    exact (hname.append (hvalue.cons (Mark.matches_symbol.mpr hequals))).cons hmark
  · intro _
    refine gives_expectSymbol fun close _ hclose => ?_
    refine gives_pure ⟨?_, trivial, rfl, Nat.zero_le _⟩
    exact (hname.append (.cons (Mark.matches_symbol.mpr hclose) .nil)).cons hmark

theorem gives_classDefinition (hscope : scope.Sound) {word : Located Token}
    (hword : word.value = .keyword .kwClass) :
    (classDefinition scope room).Gives cursor fun stmt passed _ =>
      ReadsDeclaration room stmt (word :: passed) := by
  rw [classDefinition]
  refine gives_expectName.bind fun name front _ hname => ?_
  refine gives_expectSymbol fun curly _ hcurly => ?_
  refine (gives_collect (fun _ => gives_function hscope "method") scope.fuel []).bind ?_
  rintro methods back middle ⟨_, rfl, hsequence, -⟩
  obtain ⟨hwritten, hmethods⟩ := sequence_iff.mp hsequence
  obtain ⟨hcanonical, hdepth⟩ := Function.all_iff.mpr hmethods
  refine gives_expectSymbol fun close last hclose => ?_
  refine gives_pure ⟨?_, hcanonical, rfl, hdepth⟩
  rw [Stmt.marks, Function.marksOf_eq]
  have hbody := hwritten.append (.cons (Mark.matches_symbol.mpr hclose) .nil)
  exact (hname.append (hbody.cons (Mark.matches_symbol.mpr hcurly))).cons
    (Mark.matches_keyword.mpr hword)

/-- A statement that does not begin with `fun` does not look like a declaration. -/
theorem ReadsStatement.declaration {stmt : Stmt} {passed : List (Located Token)} {after : Cursor}
    (h : ReadsStatement room stmt passed after) (hrest : cursor.rest = passed ++ after.rest)
    (hpeek : cursor.peek.value ≠ .keyword .kwFun) : ReadsDeclaration room stmt passed := by
  refine ⟨h.written, h.canonical, ?_, h.depth_le⟩
  have hwritten := h.written
  cases stmt with
  | expression expr =>
      rw [Stmt.marks] at hwritten
      rw [Stmt.looksDeclared]
      cases hmarks : expr.marks with
      | nil => rfl
      | cons mark marks =>
          rw [hmarks] at hwritten
          obtain ⟨token, rest, rfl, hmark, -⟩ := written_cons.mp hwritten
          have htoken : mark.token = cursor.peek.value := by
            rw [Cursor.peek, hrest]
            exact hmark.1.symm
          simpa [htoken] using hpeek
  | _ => rfl

theorem gives_declaration (hscope : scope.Sound) :
    (declaration scope room).Gives cursor fun stmt passed _ =>
      ReadsDeclaration room stmt passed := by
  rw [declaration]
  refine gives_recovering ?_
  refine gives_eat nofun ?_ fun _ => ?_
  · rintro - word after hword -
    exact gives_classDefinition hscope hword
  refine gives_eat nofun ?_ fun hfun => ?_
  · rintro - word after hword -
    refine Gives.map ((gives_function hscope "function").imp ?_)
    rintro function passed _ _ ⟨hwritten, hcanonical, hdepth⟩
    exact ⟨hwritten.cons (Mark.matches_keyword.mpr hword), hcanonical, rfl, hdepth⟩
  refine gives_eat nofun ?_ fun _ => ?_
  · rintro - word after hword -
    exact gives_varDefinition hscope hword
  refine (hscope.statement room cursor).imp ?_
  intro stmt passed after hrest hstmt
  exact hstmt.declaration hrest hfun

/-! ## The knot -/

/-- The scope in which the rules are entered with some fuel left. -/
def scopeWith (fuel : Nat) : Scope :=
  ⟨fuel, declarationWith fuel, statementWith fuel, expressionWith fuel, operandWith fuel⟩

@[simp] theorem scopeWith_zero :
    scopeWith 0 = ⟨0, fun _ => unfinished, fun _ => unfinished, fun _ => unfinished,
      fun _ => unfinished⟩ := by
  rw [scopeWith]
  congr 1 <;> funext room
  · rw [declarationWith]
  · rw [statementWith]
  · rw [expressionWith]
  · rw [operandWith]

@[simp] theorem scopeWith_succ (fuel : Nat) :
    scopeWith (fuel + 1) = ⟨fuel + 1, declaration (scopeWith fuel),
      nested (statement (scopeWith fuel)), nested (assignment (scopeWith fuel)),
      operand (scopeWith fuel)⟩ := by
  rw [scopeWith]
  congr 1 <;> funext room
  · rw [declarationWith]
    rfl
  · rw [statementWith]
    rfl
  · rw [expressionWith]
    rfl
  · rw [operandWith]
    rfl

theorem scopeWith_sound (fuel : Nat) : (scopeWith fuel).Sound := by
  induction fuel with
  | zero =>
      rw [scopeWith_zero]
      exact ⟨fun _ _ => gives_unfinished, fun _ _ => gives_unfinished, fun _ _ => gives_unfinished,
        fun _ _ => gives_unfinished⟩
  | succ fuel ih =>
      rw [scopeWith_succ]
      refine ⟨fun room cursor => ?_, fun room cursor => ?_, fun room cursor => ?_,
        fun room cursor => ?_⟩
      · exact gives_declaration ih
      · refine gives_nested fun inner hroom => ?_
        rw [hroom]
        exact gives_statement ih
      · refine gives_nested fun inner hroom => (gives_assignment ih).imp ?_
        rintro expr passed _ _ ⟨hwritten, hfits⟩
        exact ⟨hwritten, hfits.canonical, hroom ▸ Nat.succ_le_succ hfits.depth_le⟩
      · exact gives_operand ih

theorem gives_program (fuel : Nat) :
    (program fuel).Gives cursor fun tree passed after =>
      IsCanonical tree ∧ Written (Stmt.marksOf tree) passed ∧ after.atEnd = true := by
  rw [program]
  refine (gives_collect ((scopeWith_sound fuel).declaration maxDepth) fuel []).imp ?_
  rintro tree passed after - ⟨_, rfl, hsequence, hend⟩
  obtain ⟨hwritten, htree⟩ := sequence_iff.mp hsequence
  rw [← Stmt.marksOf_eq] at hwritten
  exact ⟨Stmt.all_iff.mpr htree, hwritten, hend⟩

end Grammar

end Stacklet
