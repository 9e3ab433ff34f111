import Stacklet.Proofs.Tree.Lockstep

/-! # The grammar in lockstep

Each rule of the grammar takes runs that are together to runs that are together, if the readers that
it refers back to do. Where streams part, the guide is either stuck or has to read a statement; what
the runs do with a statement there is all that has to be known of a comparison.
-/

namespace Stacklet

/-- Whether an assignment may go to an expression. -/
def Expr.isTarget : Expr → Bool
  | .var _ => true
  | _ => false

theorem Token.isQuiet_of_isHalt {token : Token} (h : token.isHalt = true) :
    token.isQuiet = true := by
  unfold Token.isHalt at h
  split at h
  · rfl
  · rfl
  · cases h

theorem Grammar.Level.operator?_of_isQuiet {token : Token} (h : token.isQuiet = true)
    (level : Level) : level.operator? token = none := by
  have hlevels : Level.all.all (fun level => (level.operator? token).isNone) = true :=
    (Bool.and_eq_true_iff.mp h).2
  have hmem : level ∈ Level.all := by
    cases level <;> decide
  exact Option.isNone_iff_eq_none.mp (List.all_eq_true.mp hlevels level hmem)

theorem Grammar.InfixOp.unplaced_apply (op : InfixOp) (left right : Expr) (span : Span) :
    (op.apply left span right).unplaced =
      op.apply left.unplaced ⟨0, 0, 0⟩ right.unplaced := by
  cases op <;> rw [InfixOp.apply, Expr.unplaced] <;> rfl

theorem Stmt.unplaced_ret (keyword : Span) (value : Option Expr) :
    (Stmt.ret keyword value).unplaced = .ret ⟨0, 0, 0⟩ (value.map Expr.unplaced) := by
  cases value <;> rw [Stmt.unplaced] <;> rfl

theorem Stmt.unplaced_varDef (name : Located String) (value : Option Expr) :
    (Stmt.varDef name value).unplaced = .varDef name.unplaced (value.map Expr.unplaced) := by
  cases value <;> rw [Stmt.unplaced] <;> rfl

theorem Grammar.unplaced_forLoop (initializer : Option Stmt) (condition increment : Option Expr)
    (body : Stmt) :
    (forLoop initializer condition increment body).unplaced =
      forLoop (initializer.map Stmt.unplaced) (condition.map Expr.unplaced)
        (increment.map Expr.unplaced) body.unplaced := by
  cases initializer <;> cases condition <;> cases increment <;>
    simp only [forLoop, Stmt.unplaced, Stmt.unplacedAll, Expr.unplaced, Option.map, Option.getD]

namespace Comparison

open Reader Grammar

variable {ι α β γ : Type} {comparison : Comparison ι} {early before : Prop}
  {cursors : ι → Cursor} {result : (ι → β) → Prop} {scopes : ι → Scope} {rooms : ι → Nat}

/-- Expressions of the runs that are the same up to places, as far as they are compared. All of them
can be assigned to, or none. -/
structure SameExpr (comparison : Comparison ι) (values : ι → Expr) : Prop where
  tree : comparison.Same Expr.unplaced values
  target : ∀ i j, (values i).isTarget = (values j).isTarget

theorem SameExpr.of_not_target {values : ι → Expr} (tree : comparison.Same Expr.unplaced values)
    (h : ∀ i, (values i).isTarget = false) : comparison.SameExpr values :=
  ⟨tree, fun i j => (h i).trans (h j).symm⟩

/-- The readers through which the grammar is recursive keep runs together. -/
structure Keeps (comparison : Comparison ι) (scopes : ι → Scope) : Prop where
  blocked : ∀ i, (scopes i).Blocked
  declaration {rooms : ι → Nat} {cursors : ι → Cursor} :
    comparison.Rooms rooms → comparison.Together cursors →
    comparison.Agree False cursors (fun i => (scopes i).declaration (rooms i))
      (comparison.Same Stmt.unplaced)
  statement {rooms : ι → Nat} {cursors : ι → Cursor} :
    comparison.Rooms rooms → comparison.Together cursors →
    comparison.Agree False cursors (fun i => (scopes i).statement (rooms i))
      (comparison.Same Stmt.unplaced)
  expression {rooms : ι → Nat} {cursors : ι → Cursor} :
    comparison.Rooms rooms → comparison.Together cursors →
    comparison.Agree (¬ comparison.IsQuiet) cursors (fun i => (scopes i).expression (rooms i))
      comparison.SameExpr
  operand {rooms : ι → Nat} {cursors : ι → Cursor} :
    comparison.Rooms rooms → comparison.Together cursors →
    comparison.Agree (¬ comparison.IsQuiet) cursors (fun i => (scopes i).operand (rooms i))
      comparison.SameExpr

/-! ## Operators -/

theorem chain_of_isHalt {level : Level} {operand : Reader Expr} {fuel : Nat} {left : Expr}
    {cursor : Cursor} (h : cursor.peek.value.isHalt = true) :
    Refuses (chain level operand fuel left) cursor ∨
      ∃ final, chain level operand fuel left cursor = .done final cursor := by
  cases fuel with
  | zero => exact .inl ⟨.unfinished, rfl, rfl⟩
  | succ fuel =>
      have hnone := level.operator?_of_isQuiet (Token.isQuiet_of_isHalt h)
      exact .inr ⟨left, chain_of_operator?_eq_none hnone⟩

theorem agree_chain {level : Level} {operand : ι → Reader Expr}
    (hoperand : ∀ {cursors}, comparison.Together cursors →
      comparison.Agree (¬ comparison.IsQuiet) cursors operand comparison.SameExpr)
    (fuels : ι → Nat) {lefts : ι → Expr} (hcursors : comparison.Together cursors)
    (hlefts : comparison.SameExpr lefts) :
    comparison.Agree (¬ comparison.IsQuiet) cursors
      (fun i => chain level (operand i) (fuels i) (lefts i)) comparison.SameExpr := by
  induction fuels using comparison.fuels_induction generalizing cursors lefts with
  | zero fuels i hi =>
      apply agree_unfinished i
      rw [hi]
      rfl
  | succ fuels ih =>
      rcases hcursors with hstep | hedge
      · simp only [chain]
        apply agree_peek hstep
        split
        next => exact agree_pure (.inl hstep) hlefts
        next op hop =>
          have hpeek : (cursors comparison.guide).peek.value ≠ .endOfInput := by
            intro hpeek
            rw [hpeek, Level.operator?_of_isQuiet rfl] at hop
            cases hop
          refine agree_next hstep hpeek fun tokens reached hreached => ?_
          refine (hoperand hreached).bind (fun rights later hrights hlater => ?_) ?_
          · refine ih hlater (.of_not_target (fun i j hij => ?_) fun i => ?_)
            · simp only [op.unplaced_apply, hlefts.tree i j hij, hrights.tree i j hij]
            · cases op <;> rfl
          · intro hearly value later hhalt
            exact (chain_of_isHalt hhalt).imp lost_of_refuses fun hdone => ⟨hearly, hdone⟩
      · apply agree_edge hedge hlefts
        intro i hquiet
        exact chain_of_operator?_eq_none (level.operator?_of_isQuiet hquiet)

theorem agree_infixed (hscopes : comparison.Keeps scopes) (hrooms : comparison.Rooms rooms)
    (levels : List Level) (hcursors : comparison.Together cursors) :
    comparison.Agree (¬ comparison.IsQuiet) cursors
      (fun i => infixed (scopes i) (rooms i) levels) comparison.SameExpr := by
  induction levels generalizing cursors with
  | nil => exact hscopes.operand hrooms hcursors
  | cons level tighter ih =>
      refine (ih hcursors).bind (fun lefts reached hlefts hreached => ?_) ?_
      · exact agree_chain ih _ hreached hlefts
      · intro hearly value reached hhalt
        exact (chain_of_isHalt hhalt).imp lost_of_refuses fun hdone => ⟨hearly, hdone⟩

theorem assigned_cases (target : Expr) :
    (∃ name, target = .var name) ∨ target.isTarget = false ∧
      ∀ (value : Expr) (equals : Span) (cursor : Cursor),
        ((match target with
          | .var name => pure (.assign name value)
          | _ => failAt .invalidAssignmentTarget equals : Reader Expr) cursor).trouble? =
            some (.failed .invalidAssignmentTarget) := by
  cases target with
  | var name => exact .inl ⟨name, rfl⟩
  | _ => exact .inr ⟨rfl, fun _ _ _ => rfl⟩

theorem agree_assigned {targets values : ι → Expr} {spans : ι → Span}
    (hcursors : comparison.Together cursors) (htargets : comparison.SameExpr targets)
    (hvalues : comparison.SameExpr values) :
    comparison.Agree early cursors
      (fun i => match targets i with
        | .var name => pure (.assign name (values i))
        | _ => failAt .invalidAssignmentTarget (spans i)) comparison.SameExpr := by
  by_cases hvar : ∀ i, ∃ name, targets i = .var name
  · choose names hnames using hvar
    simp only [hnames]
    apply agree_pure hcursors
    refine .of_not_target (fun i j hij => ?_) fun _ => rfl
    have hname := htargets.tree i j hij
    simp only [hnames, Expr.unplaced, Expr.var.injEq] at hname
    rw [Expr.unplaced, Expr.unplaced, hname, hvalues.tree i j hij]
  · obtain ⟨i, hi⟩ := not_forall.mp hvar
    obtain ⟨hother, -⟩ := (assigned_cases (targets i)).resolve_left hi
    apply agree_failed .invalidAssignmentTarget
    intro j
    rcases assigned_cases (targets j) with ⟨name, hname⟩ | ⟨-, hfailed⟩
    · rw [htargets.target i j, hname] at hother
      cases hother
    · exact hfailed (values j) (spans j) (cursors j)

theorem agree_assignment (hscopes : comparison.Keeps scopes) (hrooms : comparison.Rooms rooms)
    (hcursors : comparison.Together cursors) :
    comparison.Agree (¬ comparison.IsQuiet) cursors (fun i => assignment (scopes i) (rooms i))
      comparison.SameExpr := by
  have hended : ∀ {cursor : Cursor} {target : Expr} {more : Reader Expr},
      cursor.peek.value.isQuiet = true →
        (eat (.symbol .assign) >>= fun assigned => if assigned = true then more else pure target)
          cursor = .done target cursor := by
    intro cursor target more hquiet
    rw [bind_of_done (eat_of_ne (Token.ne_of_class hquiet rfl))]
    rfl
  refine (agree_infixed hscopes hrooms Level.all hcursors).bind ?_ ?_
  · intro targets reached htargets hreached
    rcases hreached with hstep | hedge
    · refine agree_eat nofun hstep (fun later hlater => ?_) (agree_pure (.inl hstep) htargets)
      refine agree_previousSpan fun spans => ?_
      refine (hscopes.expression hrooms hlater).bind (fun values last hvalues hlast => ?_) ?_
      · exact agree_assigned hlast htargets hvalues
      · intro hearly value last _
        rcases assigned_cases (targets comparison.guide) with ⟨name, hname⟩ | ⟨-, hfailed⟩
        · simp only [hname]
          exact .inr ⟨hearly, _, rfl⟩
        · exact .inl ⟨_, hfailed value (spans comparison.guide) last, comparison.counts_loud hearly⟩
    · exact agree_edge hedge htargets fun i hquiet => hended hquiet
  · intro hearly target reached hhalt
    exact .inr ⟨hearly, target, hended (Token.isQuiet_of_isHalt hhalt)⟩

/-! ## Operands -/

/-- A listing up to its parenthesis. -/
theorem agree_listing {listing : Listing} {item : ι → Reader α} {image : α → γ} {fuels : ι → Nat}
    {next : ι → List α → Reader β}
    (hitem : ∀ {cursors}, comparison.Together cursors →
      comparison.Agree before cursors item (comparison.Same image))
    (hblocked : ∀ i {cursor : Cursor}, cursor.peek.value.isBlocking = true →
      Stuck (item i) cursor)
    (hcursors : comparison.Together cursors)
    (hnext : ∀ values reached, comparison.Same (List.map image) values →
      comparison.Together reached →
      comparison.Agree early reached (fun i => next i (values i)) result)
    (hrefuses : ∀ values {cursor : Cursor}, cursor.peek.value.isHalt = true →
      Refuses (next comparison.guide values) cursor) :
    comparison.Agree early cursors
      (fun i => isAhead (.symbol .closeParen) >>= fun empty =>
        if empty = true then pure [] >>= next i
        else separated listing (item i) (fuels i) [] >>= next i) result := by
  have hnil : comparison.Same (List.map image) fun _ => [] := fun _ _ _ => rfl
  rcases hcursors with hstep | hedge
  · refine agree_isAhead hstep fun empty => ?_
    cases empty with
    | true => exact hnext _ _ hnil (.inl hstep)
    | false =>
        refine (agree_separated hitem (.inl hstep) fuels _ (fun _ _ => rfl) hnil).bind hnext ?_
        exact fun _ values _ hhalt => .inl (lost_of_refuses (hrefuses values hhalt))
  · apply agree_of_blocked hedge
    intro i hblocking
    have hahead : isAhead (.symbol .closeParen) (cursors i) = .done false (cursors i) := by
      rw [isAhead, decide_eq_false (Token.ne_of_class hblocking rfl)]
    unfold Stuck
    rw [bind_of_done hahead]
    apply Stuck.bind
    cases fuels i with
    | zero =>
        intro hnone
        cases hnone
    | succ fuel => exact (hblocked i hblocking).bind

theorem agree_parameters (hcursors : comparison.Together cursors) :
    comparison.Agree False cursors (fun i => parameters (scopes i))
      (comparison.Same (List.map Located.unplaced)) := by
  refine agree_listing agree_expectName ?_ hcursors ?_ ?_
  · intro i cursor hblocking
    exact (refuses_expectName fun _ => Token.ne_of_class hblocking rfl).stuck
  · intro names reached hnames hreached
    exact agree_expectSymbol hreached fun _ later hlater => agree_pure hlater hnames
  · exact fun _ _ hhalt => refuses_expectSymbol (Token.ne_of_class hhalt rfl)

theorem agree_block (hscopes : comparison.Keeps scopes) (hrooms : comparison.Rooms rooms)
    (hcursors : comparison.Together cursors) :
    comparison.Agree False cursors (fun i => block (scopes i) (rooms i))
      (comparison.Same Stmt.unplacedAll) := by
  have hbody := agree_collect isStop_atBlockEnd (hscopes.declaration hrooms) hcursors
    (fun i => (scopes i).fuel) (fun _ => []) fun _ _ _ => rfl
  refine hbody.expectSymbol fun bodies _ reached hbodies hreached => agree_pure hreached ?_
  intro i j hij
  rw [Stmt.unplacedAll_eq, Stmt.unplacedAll_eq, hbodies i j hij]

/-- Parameters and a body, with the tokens between them. -/
theorem agree_body (hscopes : comparison.Keeps scopes) (hrooms : comparison.Rooms rooms)
    (hcursors : comparison.Together cursors) {opening before : String}
    {build : ι → List (Located String) → List Stmt → α} {good : (ι → α) → Prop}
    (hgood : ∀ names bodies, comparison.Same (List.map Located.unplaced) names →
      comparison.Same Stmt.unplacedAll bodies → good fun i => build i (names i) (bodies i)) :
    comparison.Agree False cursors
      (fun i => do
        let _ ← expectSymbol .openParen opening
        let names ← parameters (scopes i)
        let _ ← expectSymbol .openCurly before
        let body ← block (scopes i) (rooms i)
        return build i names body) good := by
  refine agree_expectSymbol hcursors fun _ reached hreached => ?_
  refine (agree_parameters hreached).bind ?_ False.elim
  intro names reached hnames hreached
  refine agree_expectSymbol hreached fun _ reached hreached => ?_
  refine (agree_block hscopes hrooms hreached).bind ?_ False.elim
  intro bodies reached hbodies hreached
  exact agree_pure hreached (hgood names bodies hnames hbodies)

theorem agree_lambda (hscopes : comparison.Keeps scopes) (hrooms : comparison.Rooms rooms)
    (hcursors : comparison.Together cursors) :
    comparison.Agree False cursors (fun i => lambda (scopes i) (rooms i))
      comparison.SameExpr := by
  refine agree_body hscopes hrooms hcursors fun names bodies hnames hbodies => ?_
  refine .of_not_target (fun i j hij => ?_) fun _ => rfl
  rw [Expr.unplaced, Expr.unplaced, hnames i j hij, hbodies i j hij]

theorem agree_primary (hscopes : comparison.Keeps scopes) (hrooms : comparison.Rooms rooms)
    (hcursors : comparison.Together cursors) :
    comparison.Agree False cursors (fun i => primary (scopes i) (rooms i))
      comparison.SameExpr := by
  rcases hcursors with hstep | hedge
  · apply agree_peek hstep
    split
    next value hvalue =>
      have hpeek : (cursors comparison.guide).peek.value ≠ .endOfInput := by
        intro hpeek
        rw [hpeek] at hvalue
        cases hvalue
      refine agree_next hstep hpeek fun tokens reached hreached => agree_pure hreached ?_
      exact .of_not_target (fun _ _ _ => rfl) fun _ => rfl
    next =>
      split
      next text htext =>
        refine agree_next hstep (htext ▸ nofun) fun tokens reached hreached => ?_
        exact agree_pure hreached ⟨fun _ _ _ => rfl, fun _ _ => rfl⟩
      next hparen =>
        refine agree_next hstep (hparen ▸ nofun) fun tokens reached hreached => ?_
        refine (hscopes.expression hrooms hreached).expectSymbol ?_
        intro inners _ later hinners hlater
        refine agree_pure hlater (.of_not_target (fun i j hij => ?_) fun _ => rfl)
        rw [Expr.unplaced, Expr.unplaced, hinners.tree i j hij]
      next => exact agree_failed _ fun _ => rfl
  · apply agree_of_blocked hedge
    exact fun i hblocking => stuck_primary (Token.opensExpr_of_isBlocking hblocking)

theorem agree_arguments (hscopes : comparison.Keeps scopes) (hrooms : comparison.Rooms rooms)
    (hcursors : comparison.Together cursors) :
    comparison.Agree False cursors (fun i => arguments (scopes i) (rooms i))
      (comparison.Same fun read => Expr.unplacedAll read.1) := by
  have hexpression : ∀ {cursors}, comparison.Together cursors →
      comparison.Agree (¬ comparison.IsQuiet) cursors (fun i => (scopes i).expression (rooms i))
        (comparison.Same Expr.unplaced) :=
    fun hcursors => (hscopes.expression hrooms hcursors).imp id fun _ hvalues => hvalues.tree
  refine agree_listing hexpression ?_ hcursors ?_ ?_
  · intro i cursor hblocking
    exact (hscopes.blocked i).expression (Token.opensExpr_of_isBlocking hblocking)
  · intro values reached hvalues hreached
    refine agree_expectSymbol hreached fun _ later hlater => agree_pure hlater ?_
    intro i j hij
    simp only [Expr.unplacedAll_eq, hvalues i j hij]
  · exact fun _ _ hhalt => refuses_expectSymbol (Token.ne_of_class hhalt rfl)

theorem agree_calls (hscopes : comparison.Keeps scopes) (hrooms : comparison.Rooms rooms)
    (fuels : ι → Nat) {callees : ι → Expr} (hcursors : comparison.Together cursors)
    (hcallees : comparison.SameExpr callees) :
    comparison.Agree (¬ comparison.IsQuiet) cursors
      (fun i => calls (scopes i) (rooms i) (fuels i) (callees i)) comparison.SameExpr := by
  induction fuels using comparison.fuels_induction generalizing cursors callees with
  | zero fuels i hi =>
      apply agree_unfinished i
      rw [hi]
      rfl
  | succ fuels ih =>
      rcases hcursors with hstep | hedge
      · simp only [calls]
        refine agree_eat (by decide) hstep (fun reached hreached => ?_)
          (agree_pure (.inl hstep) hcallees)
        refine (agree_arguments hscopes hrooms hreached).bind ?_ False.elim
        intro values later hvalues hlater
        refine ih hlater (.of_not_target (fun i j hij => ?_) fun _ => rfl)
        have harguments : Expr.unplacedAll (values i).1 = Expr.unplacedAll (values j).1 :=
          hvalues i j hij
        rw [Expr.unplaced, Expr.unplaced, hcallees.tree i j hij, harguments]
      · apply agree_edge hedge hcallees
        intro i hquiet
        exact calls_of_peek_ne (Token.ne_of_class hquiet rfl)

theorem agree_operand (hscopes : comparison.Keeps scopes) (hrooms : comparison.Rooms rooms)
    (hcursors : comparison.Together cursors) :
    comparison.Agree (¬ comparison.IsQuiet) cursors (fun i => operand (scopes i) (rooms i))
      comparison.SameExpr := by
  rcases hcursors with hstep | hedge
  · refine agree_eat nofun hstep (fun reached hreached => ?_) ?_
    · exact (agree_lambda hscopes hrooms hreached).whenever
    · apply agree_peek hstep
      split
      next op hop =>
        have hpeek : (cursors comparison.guide).peek.value ≠ .endOfInput := by
          intro hpeek
          rw [hpeek] at hop
          cases hop
        refine agree_next hstep hpeek fun tokens reached hreached => ?_
        have hright := agree_nested hrooms fun inner hinner => hscopes.operand hinner hreached
        refine hright.bind (fun rights later hrights hlater => agree_pure hlater ?_) ?_
        · refine .of_not_target (fun i j hij => ?_) fun _ => rfl
          rw [Expr.unplaced, Expr.unplaced, hrights.tree i j hij]
          rfl
        · exact fun hearly _ _ _ => .inr ⟨hearly, _, rfl⟩
      next =>
        refine (agree_primary hscopes hrooms (.inl hstep)).bind ?_ False.elim
        intro callees reached hcallees hreached
        exact agree_calls hscopes hrooms _ hreached hcallees
  · apply agree_of_blocked hedge
    exact fun i hblocking => stuck_operand (Token.opensExpr_of_isBlocking hblocking)

/-! ## Statements -/

theorem agree_expressionStatement (hscopes : comparison.Keeps scopes)
    (hrooms : comparison.Rooms rooms) (hcursors : comparison.Together cursors) :
    comparison.Agree False cursors (fun i => expressionStatement (scopes i) (rooms i))
      (comparison.Same Stmt.unplaced) := by
  refine (hscopes.expression hrooms hcursors).expectSymbol fun values _ reached hvalues hreached =>
    agree_pure hreached fun i j hij => ?_
  rw [Stmt.unplaced, Stmt.unplaced, hvalues.tree i j hij]

theorem agree_printStatement (hscopes : comparison.Keeps scopes)
    (hrooms : comparison.Rooms rooms) (hcursors : comparison.Together cursors) :
    comparison.Agree False cursors (fun i => printStatement (scopes i) (rooms i))
      (comparison.Same Stmt.unplaced) := by
  refine (hscopes.expression hrooms hcursors).expectSymbol fun values _ reached hvalues hreached =>
    agree_pure hreached fun i j hij => ?_
  rw [Stmt.unplaced, Stmt.unplaced, hvalues.tree i j hij]

theorem agree_someExpression (hscopes : comparison.Keeps scopes) (hrooms : comparison.Rooms rooms)
    (hcursors : comparison.Together cursors) :
    comparison.Agree (¬ comparison.IsQuiet) cursors
      (fun i => some <$> (scopes i).expression (rooms i))
      (comparison.Same (Option.map Expr.unplaced)) :=
  (hscopes.expression hrooms hcursors).map fun _ hvalues i j hij =>
    congrArg some (hvalues.tree i j hij)

theorem agree_clause (hscopes : comparison.Keeps scopes) (hrooms : comparison.Rooms rooms)
    (hcursors : comparison.Together cursors) {stop : Symbol}
    (hstop : Token.endsExpr (.symbol stop) = true) :
    comparison.Agree (¬ comparison.IsQuiet) cursors
      (fun i => clause (scopes i) (rooms i) stop) (comparison.Same (Option.map Expr.unplaced)) := by
  rcases hcursors with hstep | hedge
  · refine agree_isAhead hstep fun ahead => ?_
    cases ahead with
    | true => exact agree_pure (.inl hstep) fun _ _ _ => rfl
    | false => exact agree_someExpression hscopes hrooms (.inl hstep)
  · apply agree_of_blocked hedge
    intro i hblocking
    have hother : Token.isBlocking (.symbol stop) = false := by
      simp only [Token.isBlocking, hstop, Bool.not_true, Bool.and_false, Bool.false_and]
    have hahead : isAhead (.symbol stop) (cursors i) = .done false (cursors i) := by
      rw [isAhead, decide_eq_false (Token.ne_of_class hblocking hother)]
    unfold Stuck clause
    rw [bind_of_done hahead]
    exact ((hscopes.blocked i).expression (Token.opensExpr_of_isBlocking hblocking)).bind

theorem agree_returnStatement (hscopes : comparison.Keeps scopes)
    (hrooms : comparison.Rooms rooms) (hcursors : comparison.Together cursors) :
    comparison.Agree False cursors (fun i => returnStatement (scopes i) (rooms i))
      (comparison.Same Stmt.unplaced) := by
  refine agree_previousSpan fun spans => ?_
  refine (agree_clause hscopes hrooms hcursors rfl).expectSymbol ?_
  intro values _ reached hvalues hreached
  refine agree_pure hreached fun i j hij => ?_
  have hvalue := hvalues i j hij
  rw [Stmt.unplaced_ret, Stmt.unplaced_ret, hvalue]

theorem agree_varDefinition (hscopes : comparison.Keeps scopes)
    (hrooms : comparison.Rooms rooms) (hcursors : comparison.Together cursors) :
    comparison.Agree False cursors (fun i => varDefinition (scopes i) (rooms i))
      (comparison.Same Stmt.unplaced) := by
  refine (agree_expectName hcursors).bind (fun names reached hnames hreached => ?_) False.elim
  have hdefined : ∀ values : ι → Option Expr, comparison.Same (Option.map Expr.unplaced) values →
      comparison.Same Stmt.unplaced fun i => .varDef (names i) (values i) := by
    intro values hvalues i j hij
    rw [Stmt.unplaced_varDef, Stmt.unplaced_varDef, hnames i j hij, hvalues i j hij]
  rcases hreached with hstep | hedge
  · refine agree_eat nofun hstep (fun later hlater => ?_) ?_
    · refine (agree_someExpression hscopes hrooms hlater).expectSymbol ?_
      exact fun values _ last hvalues hlast => agree_pure hlast (hdefined values hvalues)
    · refine agree_expectSymbol (.inl hstep) fun _ last hlast => agree_pure hlast ?_
      exact hdefined _ fun _ _ _ => rfl
  · have hhalt := AtEdge.isHalt hedge
    apply agree_of_lost hedge
    apply lost_of_refuses
    apply refuses_eat (Token.ne_of_class hhalt rfl)
    exact refuses_expectSymbol (Token.ne_of_class hhalt rfl)

theorem agree_forInitializer (hscopes : comparison.Keeps scopes)
    (hrooms : comparison.Rooms rooms) (hcursors : comparison.Together cursors) :
    comparison.Agree False cursors (fun i => forInitializer (scopes i) (rooms i))
      (comparison.Same (Option.map Stmt.unplaced)) := by
  have hsome : ∀ values : ι → Stmt, comparison.Same Stmt.unplaced values →
      comparison.Same (Option.map Stmt.unplaced) fun i => some (values i) :=
    fun values hvalues i j hij => congrArg some (hvalues i j hij)
  rcases hcursors with hstep | hedge
  · refine agree_eat nofun hstep (fun later hlater => ?_) ?_
    · exact agree_pure hlater fun _ _ _ => rfl
    · refine agree_eat nofun hstep (fun later hlater => ?_) ?_
      · exact (agree_varDefinition hscopes hrooms hlater).map hsome
      · exact (agree_expressionStatement hscopes hrooms (.inl hstep)).map hsome
  · apply agree_of_blocked hedge
    intro i hblocking
    have hopens := Token.opensExpr_of_isBlocking hblocking
    apply stuck_eat (Token.ne_of_class hblocking rfl)
    apply stuck_eat (Token.ne_of_class hblocking rfl)
    exact (stuck_expressionStatement (hscopes.blocked i) hopens).bind

theorem agree_forStatement (hscopes : comparison.Keeps scopes)
    (hrooms : comparison.Rooms rooms) (hcursors : comparison.Together cursors) :
    comparison.Agree False cursors (fun i => forStatement (scopes i) (rooms i))
      (comparison.Same Stmt.unplaced) := by
  refine agree_expectSymbol hcursors fun _ reached hreached => ?_
  refine (agree_forInitializer hscopes hrooms hreached).bind ?_ False.elim
  intro initializers reached hinitializers hreached
  refine (agree_clause hscopes hrooms hreached rfl).expectSymbol ?_
  intro conditions _ reached hconditions hreached
  refine (agree_clause hscopes hrooms hreached rfl).expectSymbol ?_
  intro increments _ reached hincrements hreached
  refine (hscopes.statement hrooms hreached).bind (fun bodies later hbodies hlater => ?_) False.elim
  refine agree_pure hlater fun i j hij => ?_
  simp only [unplaced_forLoop, hinitializers i j hij, hconditions i j hij, hincrements i j hij,
    hbodies i j hij]

theorem agree_ifStatement (hscopes : comparison.Keeps scopes)
    (hrooms : comparison.Rooms rooms) (hcursors : comparison.Together cursors) :
    comparison.Agree False cursors (fun i => ifStatement (scopes i) (rooms i))
      (comparison.Same Stmt.unplaced) := by
  refine agree_expectSymbol hcursors fun _ reached hreached => ?_
  refine (hscopes.expression hrooms hreached).expectSymbol ?_
  intro conditions _ reached hconditions hreached
  refine (hscopes.statement hrooms hreached).bind (fun bodies reached hbodies hreached => ?_)
    False.elim
  have hopen : comparison.Same Stmt.unplaced fun i => .ifThen (conditions i) (bodies i) := by
    intro i j hij
    rw [Stmt.unplaced, Stmt.unplaced, hconditions.tree i j hij, hbodies i j hij]
  rcases hreached with hstep | hedge
  · refine agree_eat nofun hstep (fun later hlater => ?_) (agree_pure (.inl hstep) hopen)
    refine (hscopes.statement hrooms hlater).bind (fun others last hothers hlast => ?_) False.elim
    refine agree_pure hlast fun i j hij => ?_
    rw [Stmt.unplaced, Stmt.unplaced, hconditions.tree i j hij, hbodies i j hij, hothers i j hij]
  · refine agree_bind_of_done (fun i => eat_of_ne (comparison.edge_else hedge i)) ?_
    exact agree_pure (.inr hedge) hopen

theorem agree_whileStatement (hscopes : comparison.Keeps scopes)
    (hrooms : comparison.Rooms rooms) (hcursors : comparison.Together cursors) :
    comparison.Agree False cursors (fun i => whileStatement (scopes i) (rooms i))
      (comparison.Same Stmt.unplaced) := by
  refine agree_expectSymbol hcursors fun _ reached hreached => ?_
  refine (hscopes.expression hrooms hreached).expectSymbol ?_
  intro conditions _ reached hconditions hreached
  refine (hscopes.statement hrooms hreached).bind (fun bodies later hbodies hlater => ?_) False.elim
  refine agree_pure hlater fun i j hij => ?_
  rw [Stmt.unplaced, Stmt.unplaced, hconditions.tree i j hij, hbodies i j hij]

theorem agree_statement (hscopes : comparison.Keeps scopes) (hrooms : comparison.Rooms rooms)
    (hcursors : comparison.InStep cursors) :
    comparison.Agree False cursors (fun i => statement (scopes i) (rooms i))
      (comparison.Same Stmt.unplaced) := by
  refine agree_eat nofun hcursors (fun _ => agree_forStatement hscopes hrooms) ?_
  refine agree_eat nofun hcursors (fun _ => agree_ifStatement hscopes hrooms) ?_
  refine agree_eat nofun hcursors (fun _ => agree_printStatement hscopes hrooms) ?_
  refine agree_eat nofun hcursors (fun _ => agree_returnStatement hscopes hrooms) ?_
  refine agree_eat nofun hcursors (fun _ => agree_whileStatement hscopes hrooms) ?_
  refine agree_eat nofun hcursors (fun _ hreached => ?_) ?_
  · refine (agree_block hscopes hrooms hreached).map fun bodies hbodies i j hij => ?_
    rw [Stmt.unplaced, Stmt.unplaced, hbodies i j hij]
  · exact agree_expressionStatement hscopes hrooms (.inl hcursors)

/-! ## Declarations -/

theorem agree_function (hscopes : comparison.Keeps scopes) (hrooms : comparison.Rooms rooms)
    (kind : String) (hcursors : comparison.Together cursors) :
    comparison.Agree False cursors (fun i => function (scopes i) (rooms i) kind)
      (comparison.Same Function.unplaced) := by
  refine (agree_expectName hcursors).bind (fun names reached hnames hreached => ?_) False.elim
  refine agree_body hscopes hrooms hreached fun parameters bodies hparameters hbodies => ?_
  intro i j hij
  rw [Function.unplaced, Function.unplaced, hnames i j hij, hparameters i j hij, hbodies i j hij]

theorem agree_classDefinition (hscopes : comparison.Keeps scopes)
    (hrooms : comparison.Rooms rooms) (hcursors : comparison.Together cursors) :
    comparison.Agree False cursors (fun i => classDefinition (scopes i) (rooms i))
      (comparison.Same Stmt.unplaced) := by
  refine (agree_expectName hcursors).bind (fun names reached hnames hreached => ?_) False.elim
  refine agree_expectSymbol hreached fun _ reached hreached => ?_
  have hmethods := agree_collect isStop_atBlockEnd (agree_function hscopes hrooms "method")
    hreached (fun i => (scopes i).fuel) (fun _ => []) fun _ _ _ => rfl
  refine hmethods.expectSymbol fun methods _ reached hmethods hreached => agree_pure hreached ?_
  intro i j hij
  rw [Stmt.unplaced, Stmt.unplaced, Function.unplacedAll_eq, Function.unplacedAll_eq,
    hnames i j hij, hmethods i j hij]

/-- Where the guide is before a statement, so are the other runs. -/
theorem agree_declaration (hscopes : comparison.Keeps scopes) (hrooms : comparison.Rooms rooms)
    (hcursors : comparison.Together cursors) :
    comparison.Agree False cursors (fun i => declaration (scopes i) (rooms i))
      (comparison.Same Stmt.unplaced) := by
  rcases hcursors with hstep | hedge
  · apply Agree.recovering
    refine agree_eat nofun hstep (fun _ => agree_classDefinition hscopes hrooms) ?_
    refine agree_eat nofun hstep (fun _ hreached => ?_) ?_
    · refine (agree_function hscopes hrooms _ hreached).map fun functions hfunctions i j hij => ?_
      rw [Stmt.unplaced, Stmt.unplaced, hfunctions i j hij]
    · refine agree_eat nofun hstep (fun _ => agree_varDefinition hscopes hrooms) ?_
      exact hscopes.statement hrooms (.inl hstep)
  · rcases comparison.edge_guide hedge with ⟨hpeek, hcounts⟩ | ⟨-, hopens⟩
    · apply agree_of_lost hedge
      apply lost_of_stuck hcounts
      apply stuck_declaration (hscopes.blocked comparison.guide)
      rw [hpeek]
      rfl
    · apply Agree.recovering
      have hother : ∀ {token : Token}, token.opensDeclaration = true → ∀ i,
          (cursors i).peek.value ≠ token :=
        fun htoken i => peek_ne_of_not (hopens i).2 htoken
      refine agree_bind_of_done (fun i => eat_of_ne (hother rfl i)) ?_
      refine agree_bind_of_done (fun i => eat_of_ne (hother rfl i)) ?_
      refine agree_bind_of_done (fun i => eat_of_ne (hother rfl i)) ?_
      exact hscopes.statement hrooms (.inr hedge)

/-! ## The knot -/

/-- If the runs agree on statements where streams part, they agree on everything. -/
theorem keeps_scopeWith
    (hedge : ∀ {fuels rooms : ι → Nat} {cursors : ι → Cursor}, comparison.Rooms rooms →
      comparison.AtEdge cursors →
      comparison.Agree False cursors (fun i => statementWith (fuels i) (rooms i))
        (comparison.Same Stmt.unplaced)) (fuels : ι → Nat) :
    comparison.Keeps fun i => scopeWith (fuels i) := by
  induction fuels using comparison.fuels_induction with
  | zero fuels i hi =>
      refine ⟨fun _ => scopeWith_blocked _, ?_, ?_, ?_, ?_⟩ <;>
        intro rooms cursors hrooms hcursors <;> apply agree_unfinished i <;>
        rw [hi, scopeWith_zero] <;> rfl
  | succ fuels ih =>
      refine ⟨fun _ => scopeWith_blocked _, ?_, ?_, ?_, ?_⟩
      · intro rooms cursors hrooms hcursors
        simp only [scopeWith_succ]
        exact agree_declaration ih hrooms hcursors
      · intro rooms cursors hrooms hcursors
        rcases hcursors with hstep | hcursors
        · simp only [scopeWith_succ]
          exact agree_nested hrooms fun inner hinner => agree_statement ih hinner hstep
        · exact hedge hrooms hcursors
      · intro rooms cursors hrooms hcursors
        simp only [scopeWith_succ]
        exact agree_nested hrooms fun inner hinner => agree_assignment ih hinner hcursors
      · intro rooms cursors hrooms hcursors
        simp only [scopeWith_succ]
        exact agree_operand ih hrooms hcursors

theorem agree_program {fuels : ι → Nat}
    (hscopes : comparison.Keeps fun i => scopeWith (fuels i))
    (hrooms : comparison.Rooms fun _ => maxDepth) (hcursors : comparison.Together cursors) :
    comparison.Agree comparison.EndsAtEdge cursors (fun i => program (fuels i))
      (comparison.Same Stmt.unplacedAll) := by
  refine (agree_collect isStop_atEnd (hscopes.declaration hrooms) hcursors fuels (fun _ => [])
    fun _ _ _ => rfl).imp id fun values hvalues i j hij => ?_
  rw [Stmt.unplacedAll_eq, Stmt.unplacedAll_eq, hvalues i j hij]

end Comparison

end Stacklet
