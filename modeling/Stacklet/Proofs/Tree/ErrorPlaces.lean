import Stacklet.Proofs.Tree.Soundness
import Stacklet.Proofs.Tree.Tracking

/-! # Where syntax errors are found

Every rule of the grammar is read by its reader, whatever may stand behind it. So the parser stops
at the first token that no program goes on with, and says so.
-/

namespace Stacklet

/-- What may stand behind a statement. Where that can begin with `else`, it can also be read as
another statement and the same again, so a conditional may take every `else`. -/
structure Absorbs (behind : Language Token) : Prop where
  exists_word : ∃ word, word ∈ behind
  absorbs : ∀ word, .keyword .kwElse :: word ∈ behind →
    word ∈ (Form.category .statement).language * behind

theorem Absorbs.of_behind {behind : Language Token}
    (h : Behind (· ≠ .keyword .kwElse) behind) : Absorbs behind :=
  ⟨h.exists_word, fun word hword => absurd rfl (h.allowed _ word hword)⟩

/-- A statement may stand before an `else` that can be missing. -/
theorem Absorbs.optional {behind : Language Token} (h : Absorbs behind) :
    Absorbs ((Form.sequence [.optional (.seq (.keyword .kwElse) (.category .statement))]).language *
      behind) := by
  have hlanguage : (Form.sequence
        [.optional (.seq (.keyword .kwElse) (.category .statement))]).language * behind =
      (Form.keyword .kwElse).language * ((Form.category .statement).language * behind) + behind := by
    simp only [Form.sequence, Form.optional, Form.language_seq, Form.language_alt,
      Form.language_nothing, mul_one, add_mul, one_mul, mul_assoc]
  refine ⟨Form.exists_mem_mul (by simp) h.exists_word, fun word hword => ?_⟩
  rw [hlanguage] at hword ⊢
  have hstatement : word ∈ (Form.category .statement).language * behind :=
    hword.elim (fun hword => (Reader.cons_mem_one_mul.mp hword).2) (h.absorbs word)
  obtain ⟨front, hfront, back, hback, rfl⟩ := Language.mem_mul.mp hstatement
  exact Language.append_mem_mul hfront (.inr hback)

/-- What may stand behind a category, so that it ends where its reader stops. -/
def Category.Admits : Category → Language Token → Prop
  | declaration, behind | statement, behind => Absorbs behind
  | expression, behind => Behind (·.endsExpr = true) behind
  | operand, behind => Behind (· ≠ .symbol .openParen) behind

namespace Grammar

open Reader

/-- A reader follows a category, as long as there are not too many tokens ahead. -/
def Follows {α : Type} (read : (room : Nat) → Reader α) (category : Category) (bound : Nat) :
    Prop :=
  ∀ room cursor behind, cursor.rest.length < bound → category.Admits behind →
    (read room).Reads cursor (.category category) behind

/-- The readers of a scope follow their categories, and there is fuel for the lists. -/
structure Scope.Follows (scope : Scope) (bound : Nat) : Prop where
  fuel : bound < scope.fuel
  declaration : Grammar.Follows scope.declaration .declaration bound
  statement : Grammar.Follows scope.statement .statement bound
  expression : Grammar.Follows scope.expression .expression bound
  operand : Grammar.Follows scope.operand .operand bound

variable {scope : Scope} {room bound : Nat} {cursor : Cursor} {behind : Language Token}

/-- A symbol in a sequence. -/
theorem reads_symbol {α : Type} {mark : Symbol} {expected : String} {more : Form}
    {next : Located Token → Reader α} (hmore : more.Productive) (hbehind : ∃ word, word ∈ behind)
    (hnext : ∀ token reached, reached.rest.length ≤ cursor.rest.length →
      (next token).Reads reached more behind) :
    (expectSymbol mark expected >>= next).Reads cursor (.seq (.symbol mark) more) behind :=
  (reads_expectSymbol (Form.exists_mem_mul hmore hbehind)).bind hnext

/-- A symbol at the end of a sequence. -/
theorem reads_lastSymbol {α : Type} {mark : Symbol} {expected : String}
    {value : Located Token → α} (hbehind : ∃ word, word ∈ behind) :
    (expectSymbol mark expected >>= fun token => pure (value token)).Reads cursor
      (.sequence [.symbol mark]) behind :=
  reads_symbol Form.productive_nothing hbehind fun token _ _ => reads_pure (value token)

theorem reads_name {α : Type} {expected : String} {more : Form}
    {next : Located String → Reader α} (hmore : more.Productive) (hbehind : ∃ word, word ∈ behind)
    (hnext : ∀ token reached, reached.rest.length ≤ cursor.rest.length →
      (next token).Reads reached more behind) :
    (expectName expected >>= next).Reads cursor (.seq .name more) behind :=
  (reads_expectName (Form.exists_mem_mul hmore hbehind)).bind hnext

/-! ## Expressions -/

theorem reads_parameters (hfuel : cursor.rest.length < scope.fuel)
    (hbehind : ∃ word, word ∈ behind) :
    (parameters scope).Reads cursor (.listing .name) behind := by
  rw [parameters]
  refine reads_listing rfl rfl hbehind hfuel ?_ ?_
  · intro reached _ behind hbehind
    exact reads_expectName hbehind.exists_word
  · intro names reached _
    exact reads_lastSymbol hbehind

theorem atBlockEnd_iff :
    atBlockEnd cursor = true ↔
      cursor.peek.value = .symbol .closeCurly ∨ cursor.peek.value = .endOfInput := by
  simp [atBlockEnd, Cursor.atEnd]

/-- Items in braces. -/
theorem reads_braced {α β : Type} {read : Reader α} {item : Form} {expected : String}
    {value : List α → β} {fuel : Nat} (hclose : item.opens (.symbol .closeCurly) = false)
    (hend : item.opens .endOfInput = false) (helse : item.opens (.keyword .kwElse) = false)
    (hnullable : item.nullable = false) (hbehind : ∃ word, word ∈ behind)
    (hfuel : cursor.rest.length < fuel)
    (hread : ∀ reached, reached.rest.length ≤ cursor.rest.length → ∀ behind, Absorbs behind →
      read.Reads reached item behind) :
    (collect atBlockEnd read fuel [] >>= fun values =>
      expectSymbol .closeCurly expected >>= fun _ => pure (value values)).Reads cursor
        (.sequence [.many item, .symbol .closeCurly]) behind := by
  have hclosing : Behind (· = .symbol .closeCurly)
      ((Form.sequence [.symbol .closeCurly]).language * behind) :=
    behind_symbol rfl Form.productive_nothing hbehind
  refine Reads.bind (reads_collect ?_ ?_ hclosing.exists_word hnullable hfuel ?_ []) ?_
  · intro cursor hstop
    rcases atBlockEnd_iff.mp hstop with hpeek | hpeek
    · rw [hpeek, hclose]
    · rw [hpeek, hend]
  · intro cursor word hword
    exact atBlockEnd_iff.mpr (.inl (hclosing.allowed _ word hword))
  · intro reached hreached
    have hne : Behind (· ≠ .keyword .kwElse)
        ((Form.sequence [.symbol .closeCurly]).language * behind) :=
      hclosing.imp fun token htoken => htoken ▸ nofun
    refine hread reached hreached _ (.of_behind (hne.many ?_))
    rintro token htoken rfl
    exact nomatch helse.symm.trans htoken
  · intro values reached _
    exact reads_lastSymbol hbehind

theorem reads_block (hscope : scope.Follows bound) (hcursor : cursor.rest.length < bound)
    (hbehind : ∃ word, word ∈ behind) : (block scope room).Reads cursor .block behind := by
  rw [block]
  refine reads_braced rfl rfl rfl rfl hbehind (Nat.lt_trans hcursor hscope.fuel) ?_
  intro reached hreached behind hbehind
  exact hscope.declaration room reached behind (by omega) hbehind

/-- The parameters and the body of a function. -/
theorem reads_body {α : Type} {paren curly : String} {value : List (Located String) → List Stmt → α}
    (hscope : scope.Follows bound) (hcursor : cursor.rest.length < bound)
    (hbehind : ∃ word, word ∈ behind) :
    (expectSymbol .openParen paren >>= fun _ => parameters scope >>= fun names =>
      expectSymbol .openCurly curly >>= fun _ => block scope room >>= fun body =>
      pure (value names body)).Reads cursor .lambda behind := by
  refine reads_symbol (by simp) hbehind fun _ opened hopened => ?_
  refine Reads.bind (reads_parameters ?_ (Form.exists_mem_mul (by simp) hbehind)) ?_
  · exact Nat.lt_of_le_of_lt hopened (Nat.lt_trans hcursor hscope.fuel)
  · intro names reached hreached
    refine reads_symbol (by simp) hbehind fun _ inside hinside => ?_
    exact ((reads_block hscope (by omega) hbehind).bind_nothing
      fun body _ => reads_pure (value names body)).last

theorem reads_lambda (hscope : scope.Follows bound) (hcursor : cursor.rest.length < bound)
    (hbehind : ∃ word, word ∈ behind) : (lambda scope room).Reads cursor .lambda behind := by
  rw [lambda]
  exact reads_body hscope hcursor hbehind

theorem reads_arguments (hscope : scope.Follows bound) (hcursor : cursor.rest.length < bound)
    (hbehind : ∃ word, word ∈ behind) : (arguments scope room).Reads cursor .arguments behind := by
  rw [arguments]
  refine reads_listing rfl rfl hbehind (Nat.lt_trans hcursor hscope.fuel) ?_ ?_
  · intro reached hreached behind hbehind
    exact hscope.expression room reached behind (by omega) hbehind
  · intro values reached _
    exact reads_lastSymbol hbehind

theorem isSome_literal? (token : Token) : (literal? token).isSome = Form.literal.opens token := by
  cases token with
  | keyword word => cases word <;> rfl
  | _ => rfl

theorem reads_expectedExpr {α : Type} (hpeek : Form.primary.opens cursor.peek.value = false)
    (hbehind : ∃ word, word ∈ behind) :
    (fail (.expectedExpr cursor.peek.value) : Reader α).Reads cursor .primary behind :=
  tracks_fail rfl (Form.exists_mem_mul ⟨[.keyword .kwNil], .left (.one rfl)⟩ hbehind)
    (Form.notMem_of_opens hpeek rfl)

theorem reads_primary (hscope : scope.Follows cursor.rest.length)
    (hbehind : ∃ word, word ∈ behind) : (primary scope room).Reads cursor .primary behind := by
  rw [primary]
  refine reads_peek ?_
  have hliteral := isSome_literal? cursor.peek.value
  split
  next value hvalue =>
    rw [hvalue] at hliteral
    refine Reads.left ((reads_next hliteral.symm rfl).map _) (Form.notMem_of_opens ?_ rfl)
    rw [literal?_eq_some_iff.mp hvalue]
    cases value with
    | bool value => cases value <;> rfl
    | _ => rfl
  next hnone =>
    rw [hnone] at hliteral
    split
    next text hname =>
      refine Reads.right (Reads.left ((reads_next ?_ rfl).map _) ?_) hliteral.symm rfl
      · rw [hname]
      · rw [hname]
        exact Form.notMem_of_opens rfl rfl
    next hparen =>
      refine Reads.right (Reads.right (reads_next_bind ?_ rfl ?_) ?_ rfl) hliteral.symm rfl
      · rw [hparen]
        rfl
      · intro reached hreached
        refine Reads.bind ?_ fun _ _ _ => reads_lastSymbol hbehind
        exact hscope.expression room reached _ hreached
          (behind_symbol rfl Form.productive_nothing hbehind)
      · rw [hparen]
        rfl
    next hname hparen =>
      refine reads_expectedExpr ?_ hbehind
      rw [Form.primary, Form.choice, Form.opens, ← hliteral, Option.isSome_none, Bool.false_or]
      cases hpeek : cursor.peek.value with
      | name text => exact absurd hpeek (hname text)
      | symbol mark =>
          cases mark with
          | openParen => exact absurd hpeek hparen
          | _ => rfl
      | _ => rfl

/-- Calls of what was read so far, up to something that is no parenthesis. -/
theorem reads_calls (hscope : scope.Follows bound) (hcursor : cursor.rest.length ≤ bound)
    {fuel : Nat} (hfuel : cursor.rest.length < fuel)
    (hbehind : Behind (· ≠ .symbol .openParen) behind) (callee : Expr) :
    (calls scope room fuel callee).Reads cursor .calls behind := by
  induction fuel generalizing cursor callee with
  | zero => exact absurd hfuel (Nat.not_lt_zero _)
  | succ fuel ih =>
      rw [calls]
      refine Reads.of_language_eq (reads_eat (by decide) ?_ ?_ ?_) (Form.language_many_seq _ _)
      · intro word hword
        rw [Form.language_nothing, one_mul] at hword
        exact absurd rfl (hbehind.allowed _ word hword)
      · intro reached hreached
        have hmore := hbehind.exists_word
        refine Reads.bind (reads_arguments hscope (by omega) ?_) ?_
        · exact Form.exists_mem_mul (Form.productive_many _) hmore
        · intro values last hlast
          exact ih (by omega) (by omega) _
      · intro _
        exact reads_pure callee

theorem isSome_unary? (token : Token) :
    (unary? token).isSome = (Form.oneOf [.symbol .bang, .symbol .minus]).opens token := by
  cases token with
  | symbol mark => cases mark <;> rfl
  | _ => rfl

theorem reads_operand (hscope : scope.Follows cursor.rest.length)
    (hbehind : Behind (· ≠ .symbol .openParen) behind) :
    (operand scope room).Reads cursor .operand behind := by
  have hmore := hbehind.exists_word
  rw [operand]
  refine reads_eat_of_opens (by decide) rfl rfl ?_ ?_
  · intro reached hreached
    exact (reads_lambda hscope hreached hmore).last
  · intro hfun
    refine reads_peek ?_
    have hunary := isSome_unary? cursor.peek.value
    split
    next op hop =>
      rw [hop] at hunary
      refine Reads.left (reads_next_bind hunary.symm rfl ?_) ?_
      · intro reached hreached
        refine Reads.bind (reads_nested fun inner => ?_) fun _ _ _ => reads_pure _
        refine hscope.operand inner reached _ hreached ?_
        rwa [Form.sequence, Form.language_nothing, one_mul]
      · refine Form.notMem_of_opens ?_ rfl
        rw [unary?_eq_some_iff.mp hop]
        cases op <;> rfl
    next hnone =>
      rw [hnone] at hunary
      refine Reads.right ?_ ?_ rfl
      · refine Reads.bind (reads_primary hscope (Form.exists_mem_mul (by simp) hmore)) ?_
        intro callee reached hreached
        exact (reads_calls hscope hreached (Nat.lt_of_le_of_lt hreached hscope.fuel) hbehind
          callee).last
      · rw [Form.sequence, Form.opens, ← hunary]
        rfl

/-! ## Operators -/

theorem Level.isSome_operator? (level : Level) (token : Token) :
    (level.operator? token).isSome = (Form.oneOf (Form.operators level)).opens token := by
  cases token with
  | keyword word => cases level <;> cases word <;> rfl
  | symbol mark => cases level <;> cases mark <;> rfl
  | _ => cases level <;> rfl

/-- A token is an operator of one level at most. -/
theorem Level.operator?_eq_none_of_ne {level other : Level} {token : Token} {op : InfixOp}
    (h : level.operator? token = some op) (hne : other ≠ level) : other.operator? token = none := by
  unfold operator? at h
  split at h <;> first | (cases other <;> first | rfl | exact absurd rfl hne) | exact nomatch h

theorem reads_chain {level : Level} {read : Reader Expr} {form : Form} {fuel : Nat}
    (hfuel : cursor.rest.length < fuel) (hbehind : Behind (level.operator? · = none) behind)
    (hread : ∀ reached, reached.rest.length ≤ cursor.rest.length →
      read.Reads reached form ((Form.chain level form).language * behind)) (left : Expr) :
    (chain level read fuel left).Reads cursor (.chain level form) behind := by
  induction fuel generalizing cursor left with
  | zero => exact absurd hfuel (Nat.not_lt_zero _)
  | succ fuel ih =>
      rw [chain]
      refine reads_peek ?_
      have hoperator := level.isSome_operator? cursor.peek.value
      split
      next hnone =>
        rw [hnone] at hoperator
        refine reads_none left ?_ rfl
        rw [Form.opens, ← hoperator]
        rfl
      next op hop =>
        rw [hop] at hoperator
        refine Reads.of_language_eq (Reads.left ?_ ?_) (Form.language_many_seq _ _)
        · refine reads_next_bind hoperator.symm ?_ fun reached hreached => ?_
          · cases level <;> rfl
          refine Reads.bind (hread reached (Nat.le_of_lt hreached)) fun right last hlast => ?_
          exact ih (by omega) (fun later hlater => hread later (by omega)) _
        · intro word hword
          rw [Form.language_nothing, one_mul] at hword
          cases hop.symm.trans (hbehind.allowed _ word hword)

/-- Tokens with which neither an operand goes on nor an expression with operators of some levels. -/
def Level.Free (levels : List Level) (token : Token) : Prop :=
  token ≠ .symbol .openParen ∧ ∀ level ∈ levels, level.operator? token = none

theorem Level.free_of_endsExpr {token : Token} (h : token.endsExpr = true) :
    Level.Free Level.all token := by
  unfold Token.endsExpr at h
  split at h
  · exact ⟨nofun, by decide⟩
  · exact ⟨nofun, by decide⟩
  · exact ⟨nofun, by decide⟩
  · exact nomatch h

theorem reads_infixed (hfuel : cursor.rest.length < scope.fuel) {levels : List Level}
    (hlevels : levels.Nodup)
    (hoperand : Grammar.Follows scope.operand .operand (cursor.rest.length + 1))
    (hbehind : Behind (Level.Free levels) behind) :
    (infixed scope room levels).Reads cursor (.infixed levels) behind := by
  induction levels generalizing cursor behind with
  | nil => exact hoperand room cursor behind (Nat.lt_succ_self _) (hbehind.imp fun _ => And.left)
  | cons level tighter ih =>
      obtain ⟨hnotMem, hnodup⟩ := List.nodup_cons.mp hlevels
      -- Behind an operand there may be operators of the looser level, but of no tighter one.
      have htighter : Behind (Level.Free tighter)
          ((Form.chain level (.infixed tighter)).language * behind) := by
        refine (hbehind.imp ?_).many fun token htoken => ?_
        · rintro token ⟨hparen, hlevels⟩
          exact ⟨hparen, fun other hother => hlevels other (List.mem_cons_of_mem _ hother)⟩
        · have hoperator : (level.operator? token).isSome = true := by
            rw [level.isSome_operator?]
            simpa [Form.opens, Form.nullable, Form.oneOf] using htoken
          obtain ⟨op, hop⟩ := Option.isSome_iff_exists.mp hoperator
          refine ⟨?_, fun other hother => Level.operator?_eq_none_of_ne hop ?_⟩
          · rintro rfl
            cases level <;> cases hop
          · rintro rfl
            exact hnotMem hother
      have hread : ∀ reached, reached.rest.length ≤ cursor.rest.length →
          (infixed scope room tighter).Reads reached (.infixed tighter)
            ((Form.chain level (.infixed tighter)).language * behind) := by
        intro reached hreached
        refine ih (Nat.lt_of_le_of_lt hreached hfuel) hnodup ?_ htighter
        intro room later behind hlater
        exact hoperand room later behind (by omega)
      rw [infixed]
      refine Reads.bind (hread cursor (Nat.le_refl _)) fun left reached hreached => ?_
      refine reads_chain (Nat.lt_of_le_of_lt hreached hfuel) (hbehind.imp ?_) ?_ left
      · exact fun token htoken => htoken.2 level List.mem_cons_self
      · exact fun later hlater => hread later (Nat.le_trans hlater hreached)

theorem reads_assignment (hscope : scope.Follows cursor.rest.length)
    (hoperand : Grammar.Follows scope.operand .operand (cursor.rest.length + 1))
    (hbehind : Behind (·.endsExpr = true) behind) :
    (assignment scope room).Reads cursor .expression behind := by
  have hmore := hbehind.exists_word
  rw [assignment]
  refine Reads.bind (reads_infixed hscope.fuel (by decide) hoperand ?_) ?_
  · -- Behind the operators there may be an equals sign, which is none.
    refine ⟨Form.exists_mem_mul (Form.productive_optional _) hmore, fun token word hword => ?_⟩
    rcases Form.opens_of_cons_mem hword with hopened | ⟨-, hword⟩
    · rw [Form.opens_optional] at hopened
      rw [Form.opens_symbol_seq.mp hopened]
      exact ⟨by decide, by decide⟩
    · exact Level.free_of_endsExpr (hbehind.allowed token word hword)
  · intro target reached hreached
    refine reads_eat (by decide) ?_ ?_ ?_
    · intro word hword
      rw [Form.language_nothing, one_mul] at hword
      cases hbehind.allowed _ word hword
    · intro equals hequals
      refine reads_previousSpan (Reads.bind_nothing
        (hscope.expression room equals behind (by omega) hbehind) fun value last => ?_)
      split
      next => exact reads_pure _
      next => exact reads_failAt rfl _
    · intro _
      exact reads_pure target

/-! ## Statements -/

/-- An expression before a symbol. -/
theorem reads_expression {α : Type} {mark : Symbol} {more : Form} {next : Expr → Reader α}
    (hfollows : Grammar.Follows scope.expression .expression bound)
    (hcursor : cursor.rest.length < bound) (hmark : (Token.symbol mark).endsExpr = true)
    (hmore : more.Productive) (hbehind : ∃ word, word ∈ behind)
    (hnext : ∀ value reached, reached.rest.length ≤ cursor.rest.length →
      (next value).Reads reached (.seq (.symbol mark) more) behind) :
    (scope.expression room >>= next).Reads cursor
      (.seq (.category .expression) (.seq (.symbol mark) more)) behind :=
  (hfollows room cursor _ hcursor (behind_symbol hmark hmore hbehind)).bind hnext

theorem reads_expressionStatement
    (hfollows : Grammar.Follows scope.expression .expression bound)
    (hcursor : cursor.rest.length < bound) (hbehind : ∃ word, word ∈ behind) :
    (expressionStatement scope room).Reads cursor .expressionStatement behind := by
  rw [expressionStatement]
  refine reads_expression hfollows hcursor rfl Form.productive_nothing hbehind ?_
  exact fun value reached _ => reads_lastSymbol hbehind

theorem reads_printStatement (hscope : scope.Follows bound) (hcursor : cursor.rest.length < bound)
    (hbehind : ∃ word, word ∈ behind) :
    (printStatement scope room).Reads cursor .expressionStatement behind := by
  rw [printStatement]
  refine reads_expression hscope.expression hcursor rfl Form.productive_nothing hbehind ?_
  exact fun value reached _ => reads_lastSymbol hbehind

theorem reads_varDefinition (hscope : scope.Follows bound) (hcursor : cursor.rest.length < bound)
    (hbehind : ∃ word, word ∈ behind) :
    (varDefinition scope room).Reads cursor .varDefinition behind := by
  rw [varDefinition]
  refine reads_name (by simp) hbehind fun name reached hreached => ?_
  refine Reads.of_language_eq (reads_eat_of_opens (by decide) rfl rfl ?_ ?_)
    (Form.language_optional_seq_seq _ _ _)
  · intro equals hequals
    have hclosing : Behind (·.endsExpr = true)
        ((Form.sequence [.symbol .semicolon]).language * behind) :=
      behind_symbol rfl Form.productive_nothing hbehind
    refine Reads.bind ((hscope.expression room equals _ (by omega) hclosing).map some) ?_
    exact fun initializer last _ => reads_lastSymbol hbehind
  · intro _
    exact reads_lastSymbol hbehind

theorem opensExpr_of_endsExpr {token : Token} (h : token.endsExpr = true) :
    token.opensExpr = false := by
  unfold Token.endsExpr at h
  split at h <;> first | rfl | exact nomatch h

/-- An expression that may be missing before a symbol. -/
theorem reads_clause {α : Type} {mark : Symbol} {more : Form} {next : Option Expr → Reader α}
    (hscope : scope.Follows bound) (hcursor : cursor.rest.length < bound)
    (hmark : (Token.symbol mark).endsExpr = true)
    (hmore : more.Productive) (hbehind : ∃ word, word ∈ behind)
    (hnext : ∀ value reached, reached.rest.length ≤ cursor.rest.length →
      (next value).Reads reached (.seq (.symbol mark) more) behind) :
    (clause scope room mark >>= next).Reads cursor
      (.seq (.optional (.category .expression)) (.seq (.symbol mark) more)) behind := by
  have hclosing : Behind (· = .symbol mark) ((Form.seq (.symbol mark) more).language * behind) :=
    behind_symbol rfl hmore hbehind
  refine Reads.bind ?_ hnext
  rw [clause]
  refine reads_isAhead ?_ ?_
  · intro hpeek
    refine Reads.right (reads_pure none) ?_ rfl
    rw [hpeek]
    exact opensExpr_of_endsExpr hmark
  · intro hpeek
    refine Reads.left (Reads.map ?_ some) fun word hword => ?_
    · refine hscope.expression room cursor _ hcursor (hclosing.imp ?_)
      exact fun token htoken => htoken ▸ hmark
    · rw [Form.language_nothing, one_mul] at hword
      exact hpeek (hclosing.allowed _ word hword)

theorem reads_forInitializer (hscope : scope.Follows bound) (hcursor : cursor.rest.length < bound)
    (hbehind : ∃ word, word ∈ behind) :
    (forInitializer scope room).Reads cursor .forInitializer behind := by
  rw [forInitializer]
  refine reads_eat_of_opens nofun rfl rfl ?_ ?_
  · exact fun reached _ => reads_pure none
  intro _
  refine reads_eat_of_opens nofun rfl rfl ?_ ?_
  · intro reached hreached
    exact ((reads_varDefinition hscope (by omega) hbehind).map some).last
  intro _
  exact (reads_expressionStatement hscope.expression hcursor hbehind).map some

theorem reads_forStatement (hscope : scope.Follows bound) (hcursor : cursor.rest.length < bound)
    (hbehind : Absorbs behind) :
    (forStatement scope room).Reads cursor .forStatement behind := by
  have hmore := hbehind.exists_word
  rw [forStatement]
  refine reads_symbol (by simp) hmore fun _ paren hparen => ?_
  refine Reads.bind (reads_forInitializer hscope (by omega) (Form.exists_mem_mul (by simp) hmore)) ?_
  intro initializer start hstart
  refine reads_clause hscope (by omega) rfl (by simp) hmore fun condition first hfirst => ?_
  refine reads_symbol (by simp) hmore fun _ middle hmiddle => ?_
  refine reads_clause hscope (by omega) rfl (by simp) hmore fun increment second hsecond => ?_
  refine reads_symbol (by simp) hmore fun _ last hlast => ?_
  exact ((hscope.statement room last behind (by omega) hbehind).bind_nothing
    fun body _ => reads_pure _).last

theorem reads_ifStatement (hscope : scope.Follows bound) (hcursor : cursor.rest.length < bound)
    (hbehind : Absorbs behind) :
    (ifStatement scope room).Reads cursor .ifStatement behind := by
  have hmore := hbehind.exists_word
  rw [ifStatement]
  refine reads_symbol (by simp) hmore fun _ paren hparen => ?_
  refine reads_expression hscope.expression (by omega) rfl (by simp) hmore ?_
  intro condition close hclose
  refine reads_symbol (by simp) hmore fun _ start hstart => ?_
  refine Reads.bind (hscope.statement room start _ (by omega) hbehind.optional) ?_
  intro thenBranch reached hreached
  refine Reads.of_language_eq (reads_eat (by decide) ?_ ?_ ?_)
    (Form.language_optional_seq_seq _ _ _)
  · intro word hword
    rw [Form.sequence, Form.language_nothing, one_mul] at hword
    rw [Form.language_seq, Form.sequence, Form.language_nothing, mul_one]
    exact hbehind.absorbs word hword
  · intro later hlater
    exact ((hscope.statement room later behind (by omega) hbehind).bind_nothing
      fun elseBranch _ => reads_pure _).last
  · intro _
    exact reads_pure _

theorem reads_returnStatement (hscope : scope.Follows bound)
    (hcursor : cursor.rest.length < bound) (hbehind : ∃ word, word ∈ behind) :
    (returnStatement scope room).Reads cursor .returnStatement behind := by
  rw [returnStatement]
  refine reads_previousSpan ?_
  refine reads_clause hscope hcursor rfl Form.productive_nothing hbehind ?_
  exact fun value reached _ => reads_lastSymbol hbehind

theorem reads_whileStatement (hscope : scope.Follows bound)
    (hcursor : cursor.rest.length < bound) (hbehind : Absorbs behind) :
    (whileStatement scope room).Reads cursor .whileStatement behind := by
  have hmore := hbehind.exists_word
  rw [whileStatement]
  refine reads_symbol (by simp) hmore fun _ paren hparen => ?_
  refine reads_expression hscope.expression (by omega) rfl (by simp) hmore ?_
  intro condition close hclose
  refine reads_symbol (by simp) hmore fun _ start hstart => ?_
  exact ((hscope.statement room start behind (by omega) hbehind).bind_nothing
    fun body _ => reads_pure _).last

theorem reads_statement (hscope : scope.Follows cursor.rest.length)
    (hexpression : Grammar.Follows scope.expression .expression (cursor.rest.length + 1))
    (hbehind : Absorbs behind) : (statement scope room).Reads cursor .statement behind := by
  have hmore := hbehind.exists_word
  rw [statement]
  refine reads_eat_of_opens (by decide) rfl rfl ?_ ?_
  · exact fun reached hreached => (reads_forStatement hscope hreached hbehind).last
  intro _
  refine reads_eat_of_opens (by decide) rfl rfl ?_ ?_
  · exact fun reached hreached => (reads_ifStatement hscope hreached hbehind).last
  intro _
  refine reads_eat_of_opens (by decide) rfl rfl ?_ ?_
  · exact fun reached hreached => (reads_printStatement hscope hreached hmore).last
  intro _
  refine reads_eat_of_opens (by decide) rfl rfl ?_ ?_
  · exact fun reached hreached => (reads_returnStatement hscope hreached hmore).last
  intro _
  refine reads_eat_of_opens (by decide) rfl rfl ?_ ?_
  · exact fun reached hreached => (reads_whileStatement hscope hreached hbehind).last
  intro _
  refine reads_eat_of_opens (by decide) rfl rfl ?_ ?_
  · exact fun reached hreached => ((reads_block hscope hreached hmore).map _).last
  intro _
  exact reads_expressionStatement hexpression (Nat.lt_succ_self _) hmore

/-! ## Declarations -/

theorem reads_function {kind : String} (hscope : scope.Follows bound)
    (hcursor : cursor.rest.length < bound) (hbehind : ∃ word, word ∈ behind) :
    (function scope room kind).Reads cursor .function behind := by
  rw [function]
  refine reads_name (by simp) hbehind fun name reached hreached => ?_
  exact (reads_body hscope (by omega) hbehind).last

theorem reads_classDefinition (hscope : scope.Follows bound)
    (hcursor : cursor.rest.length < bound) (hbehind : ∃ word, word ∈ behind) :
    (classDefinition scope room).Reads cursor .classDefinition behind := by
  rw [classDefinition]
  refine reads_name (by simp) hbehind fun name reached hreached => ?_
  refine reads_symbol (by simp) hbehind fun _ curly hcurly => ?_
  refine reads_braced rfl rfl rfl rfl hbehind ?_ ?_
  · exact Nat.lt_trans (by omega) hscope.fuel
  · intro first hfirst behind hbehind
    exact reads_function hscope (by omega) hbehind.exists_word

theorem reads_declaration (hscope : scope.Follows cursor.rest.length)
    (hstatement : Grammar.Follows scope.statement .statement (cursor.rest.length + 1))
    (hbehind : Absorbs behind) : (declaration scope room).Reads cursor .declaration behind := by
  have hmore := hbehind.exists_word
  rw [declaration]
  refine reads_recovering ?_
  refine reads_eat_of_opens (by decide) rfl rfl ?_ ?_
  · exact fun reached hreached => (reads_classDefinition hscope hreached hmore).last
  intro _
  refine reads_eat_of_opens (by decide) rfl rfl ?_ ?_
  · exact fun reached hreached => ((reads_function hscope hreached hmore).map _).last
  intro hfun
  refine reads_eat_of_opens (by decide) rfl rfl ?_ ?_
  · exact fun reached hreached => (reads_varDefinition hscope hreached hmore).last
  intro _
  refine (hstatement room cursor behind (Nat.lt_succ_self _) hbehind).avoiding hfun rfl ?_ hmore
  exact ⟨_, .avoiding Form.spells_statement (by decide)⟩

/-! ## The knot -/

/-- With four rounds for each token ahead, and a few more, every reader follows its category. -/
theorem scopeWith_follows (fuel : Nat) :
    (∀ bound, 4 * bound ≤ fuel + 2 → Grammar.Follows (scopeWith fuel).operand .operand bound) ∧
    (∀ bound, 4 * bound ≤ fuel + 1 →
      Grammar.Follows (scopeWith fuel).expression .expression bound) ∧
    (∀ bound, 4 * bound ≤ fuel → Grammar.Follows (scopeWith fuel).statement .statement bound) ∧
    (∀ bound, 4 * bound < fuel →
      Grammar.Follows (scopeWith fuel).declaration .declaration bound) := by
  induction fuel with
  | zero =>
      refine ⟨?_, ?_, ?_, ?_⟩
      all_goals
        intro bound hbound room cursor behind hcursor
        omega
  | succ fuel ih =>
      obtain ⟨hoperand, hexpression, hstatement, hdeclaration⟩ := ih
      have hscope : ∀ bound, 4 * bound < fuel → (scopeWith fuel).Follows bound := fun bound hbound =>
        ⟨(by omega : bound < fuel), hdeclaration bound hbound, hstatement bound (by omega),
          hexpression bound (by omega), hoperand bound (by omega)⟩
      rw [scopeWith_succ]
      refine ⟨?_, ?_, ?_, ?_⟩
      · intro bound hbound room cursor behind hcursor hbehind
        exact (reads_operand (hscope _ (by omega)) hbehind).of_language_eq
          (Form.language_category _)
      · intro bound hbound room cursor behind hcursor hbehind
        refine reads_nested fun inner => Reads.of_language_eq ?_ (Form.language_category _)
        exact reads_assignment (hscope _ (by omega)) (hoperand _ (by omega)) hbehind
      · intro bound hbound room cursor behind hcursor hbehind
        refine reads_nested fun inner => Reads.of_language_eq ?_ (Form.language_category _)
        exact reads_statement (hscope _ (by omega)) (hexpression _ (by omega)) hbehind
      · intro bound hbound room cursor behind hcursor hbehind
        refine Reads.of_language_eq ?_ (Form.language_category _)
        exact reads_declaration (hscope _ (by omega)) (hstatement _ (by omega)) hbehind

theorem tracks_program {fuel : Nat} (hfuel : 4 * (cursor.rest.length + 1) < fuel) :
    (program fuel).Tracks cursor Form.program.language
      (Form.sequence [.oneOf [.endOfInput]]).language := by
  have hend : Behind (· = .endOfInput) ((Form.sequence [.oneOf [.endOfInput]]).language * 1) := by
    refine .of_opens (by simp) rfl (fun token htoken => ?_) ⟨[], Language.nil_mem_one⟩
    simpa [Form.sequence, Form.opens, Form.nullable, Form.oneOf] using htoken
  have hne : Behind (· ≠ .keyword .kwElse)
      ((Form.sequence [.oneOf [.endOfInput]]).language * 1) :=
    hend.imp fun token htoken => by
      rw [htoken]
      decide
  rw [mul_one] at hend hne
  rw [Form.program, Form.sequence, Form.language_seq, program]
  refine reads_collect ?_ ?_ hend.exists_word rfl (by omega) ?_ []
  · intro cursor hstop
    rw [of_decide_eq_true hstop]
    rfl
  · intro cursor word hword
    exact decide_eq_true (hend.allowed _ word hword)
  · intro reached hreached
    refine (scopeWith_follows fuel).2.2.2 (cursor.rest.length + 1) hfuel maxDepth reached _
      (by omega) (.of_behind (hne.many ?_))
    rintro token htoken rfl
    cases htoken

theorem le_fuelFor (tokens : Nat) : 4 * (tokens + 1) < fuelFor tokens := by
  rw [fuelFor, maxDepth]
  omega

/-- Reading a stream that ends with the end of input comes to an end. -/
theorem program_ne_unfinished {tokens : List (Located Token)} {last previous : Located Token}
    (hend : last.value = .endOfInput) :
    program (fuelFor tokens.length) ⟨tokens, last, previous⟩ ≠ .unfinished := by
  intro hunfinished
  have htracks := @tracks_program ⟨tokens, last, previous⟩ _ (le_fuelFor _) hend
  rw [hunfinished] at htracks
  exact htracks

/-- What is wrong in a stream that ends with the end of input is recovered from. What is wrong with
a token is found at that token: the tokens before it begin a program of the grammar, and together
with it they begin none. -/
theorem program_failed {tokens : List (Located Token)} {last previous : Located Token}
    {error : Located SyntaxError} {recovery : Option Cursor}
    (hlast : tokens.getLast? = some last) (hend : last.value = .endOfInput)
    (h : program (fuelFor tokens.length) ⟨tokens, last, previous⟩ = .failed error recovery) :
    recovery.isSome ∧ ∀ found, error.value.found? = some found →
      ∃ before behind, tokens = before ++ ⟨found, error.span⟩ :: behind ∧
        (∃ more, Form.program.Spells (before.map (·.value) ++ more)) ∧
        ∀ more, ¬ Form.program.Spells (before.map (·.value) ++ found :: more) := by
  have htracks := @tracks_program ⟨tokens, last, previous⟩ _ (le_fuelFor _) hend
  rw [h] at htracks
  obtain ⟨⟨stop, rfl, -⟩, hplace⟩ := htracks
  refine ⟨rfl, fun found hfound => ?_⟩
  obtain ⟨before, reached, hpassed, hpeek, hrefused⟩ := hplace found hfound
  obtain ⟨rest, final, previous⟩ := reached
  cases rest with
  | nil =>
      -- The end of input has not been passed.
      have hbefore : tokens = before := hpassed.rest_eq.trans (List.append_nil _)
      exact absurd hend (hpassed.no_end last (hbefore ▸ List.mem_of_getLast? hlast))
  | cons token behind =>
      obtain rfl : token = ⟨found, error.span⟩ := hpeek
      exact ⟨before, behind, hpassed.rest_eq, hrefused.viable, hrefused.dead⟩

end Grammar

/-- Parsing a stream that ends with the end of input comes to an end, and so does recovery from what
is found wrong. What is found wrong with a token is found at that token: the tokens before it begin
a program of the grammar, and together with it they begin none. -/
theorem parse_error_place {tokens : List (Located Token)} {last : Located Token}
    (hlast : tokens.getLast? = some last) (hend : last.value = .endOfInput) :
    Grammar.program (Grammar.fuelFor tokens.length) ⟨tokens, last, last⟩ ≠ .unfinished ∧
    ∀ failure, parse tokens = .error failure → failure.recovers = true ∧
      ∀ found, failure.error.value.found? = some found →
        ∃ before behind, tokens = before ++ ⟨found, failure.error.span⟩ :: behind ∧
          (∃ more, Form.program.Spells (before.map (·.value) ++ more)) ∧
          ∀ more, ¬ Form.program.Spells (before.map (·.value) ++ found :: more) := by
  refine ⟨Grammar.program_ne_unfinished hend, fun failure hfailure => ?_⟩
  obtain ⟨recovery, hfailed, hrecovers⟩ :=
    failed_of_parse hlast (Grammar.program_ne_unfinished hend) hfailure
  obtain ⟨hrecovery, hplace⟩ := Grammar.program_failed hlast hend hfailed
  exact ⟨hrecovers.trans hrecovery, hplace⟩

/-- A value is missing between `print` and the semicolon. -/
theorem parse_error_place_print :
    let token (value : Token) (index : Nat) : Located Token := ⟨value, ⟨1, index, index + 1⟩⟩
    let tokens : List (Located Token) :=
      [token (.keyword .kwPrint) 0, token (.symbol .semicolon) 6, token .endOfInput 7]
    let failure : SyntaxFailure := ⟨⟨.expectedExpr (.symbol .semicolon), ⟨1, 6, 7⟩⟩, true⟩
    parse tokens = .error failure ∧
      ∃ before behind, tokens = before ++ ⟨.symbol .semicolon, failure.error.span⟩ :: behind ∧
        (∃ more, Form.program.Spells (before.map (·.value) ++ more)) ∧
        ∀ more, ¬ Form.program.Spells (before.map (·.value) ++ .symbol .semicolon :: more) := by
  intro token tokens failure
  have hfailed : (match parse tokens with
      | .error found => decide (found = failure)
      | .ok _ => false) = true := by
    decide +kernel
  have hparse : parse tokens = .error failure := by
    split at hfailed
    next found hfound => rw [hfound, of_decide_eq_true hfailed]
    next => exact nomatch hfailed
  exact ⟨hparse, ((parse_error_place rfl rfl).2 failure hparse).2 _ rfl⟩

end Stacklet
