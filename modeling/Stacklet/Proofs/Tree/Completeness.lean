import Stacklet.Proofs.Tree.Beginnings
import Stacklet.Proofs.Tree.Soundness

/-! # Canonical trees are read as they are written

Every rule reads the tokens of a canonical tree and stops behind them, if the readers that it refers
back to do so for fewer tokens. Fuel is counted against tokens: each token pays for the four rules
that may be entered before it is passed.
-/

namespace Stacklet.Grammar

open Reader

/-- The readers through which the grammar is recursive read what is written, if their fuel is
enough. -/
structure Scope.Complete (scope : Scope) : Prop where
  declaration {room : Nat} {stmt : Stmt} {tokens rest : List (Located Token)}
    {last previous : Located Token} (h : ReadsDeclaration room stmt tokens)
    (hnext : stmt.isOpen → ahead rest last ≠ .keyword .kwElse)
    (hfuel : 4 * tokens.length < scope.fuel) :
    (scope.declaration room).Passes ⟨tokens ++ rest, last, previous⟩ stmt rest
  statement {room : Nat} {stmt : Stmt} {tokens rest : List (Located Token)}
    {last previous after : Located Token} (h : ReadsStatement room stmt tokens ⟨rest, last, after⟩)
    (hfuel : 4 * tokens.length ≤ scope.fuel) :
    (scope.statement room).Passes ⟨tokens ++ rest, last, previous⟩ stmt rest
  expression {room : Nat} {expr : Expr} {tokens rest : List (Located Token)}
    {last previous : Located Token} (h : ReadsFull room expr tokens)
    (hends : (ahead rest last).endsExpr = true) (hfuel : 4 * tokens.length ≤ scope.fuel + 1) :
    (scope.expression room).Passes ⟨tokens ++ rest, last, previous⟩ expr rest
  operand {room : Nat} {expr : Expr} {tokens rest : List (Located Token)}
    {last previous : Located Token} (h : ReadsExpr 7 room expr tokens)
    (hnext : ahead rest last ≠ .symbol .openParen) (hfuel : 4 * tokens.length ≤ scope.fuel + 2) :
    (scope.operand room).Passes ⟨tokens ++ rest, last, previous⟩ expr rest

variable {scope : Scope} {room : Nat} {last previous : Located Token}
variable {tokens rest : List (Located Token)} {expr : Expr}

/-! ## Operators -/

/-- A token that continues no operand with operators of the given levels. -/
def Unextended (levels : List Level) (token : Token) : Prop :=
  token ≠ .symbol .openParen ∧ ∀ level ∈ levels, level.operator? token = none

theorem endsExpr_ahead {token : Located Token} {value : Token} (h : token.value = value)
    (hends : value.endsExpr = true) : (ahead (token :: rest) last).endsExpr = true := by
  subst h
  exact hends

theorem unextended_of_endsExpr {token : Token} (h : token.endsExpr = true) (levels : List Level) :
    Unextended levels token := by
  unfold Token.endsExpr at h
  split at h
  · exact ⟨by decide, fun level _ => by cases level <;> rfl⟩
  · exact ⟨by decide, fun level _ => by cases level <;> rfl⟩
  · exact ⟨by decide, fun level _ => by cases level <;> rfl⟩
  · cases h

theorem rank_lt_of_mem_tighter {level other : Level} {tighter : List Level}
    (h : level :: tighter <:+ Level.all) (hother : other ∈ tighter) : level.rank < other.rank := by
  have hall : Level.all.Pairwise fun looser tighter => looser.rank < tighter.rank := by decide
  exact List.rel_of_pairwise_cons (hall.sublist h.sublist) hother

/-- The token of an operator continues no operand of a tighter level. -/
theorem unextended_token {level : Level} {tighter : List Level}
    (h : level :: tighter <:+ Level.all) {op : InfixOp} (hop : op.rank = level.rank) :
    Unextended tighter op.token := by
  refine ⟨?_, fun other hother => ?_⟩
  · rcases op with op | op <;> cases op <;> decide
  · have hne : op.rank ≠ other.rank := hop ▸ (rank_lt_of_mem_tighter h hother).ne
    rcases op with op | op <;> cases op <;> cases other <;> first | rfl | exact absurd rfl hne

theorem exists_apply {expr : Expr} (hpos : 1 ≤ expr.rank) (hlt : expr.rank < 7) :
    ∃ op left span right, expr = InfixOp.apply left span right op := by
  cases expr with
  | binary left op right => exact ⟨.binary op.value, left, op.span, right, rfl⟩
  | logical left op right => exact ⟨.logical op.value, left, op.span, right, rfl⟩
  | assign => exact absurd hpos (by simp [Expr.rank])
  | _ => exact absurd hlt (by simp [Expr.rank])

theorem ReadsExpr.of_apply {tightness : Nat} {op : InfixOp} {left right : Expr} {span : Span}
    (h : ReadsExpr tightness room (op.apply left span right) tokens) :
    ∃ front back, tokens = front ++ ⟨op.token, span⟩ :: back ∧ ReadsExpr op.rank room left front ∧
      ReadsExpr (op.rank + 1) room right back := by
  obtain ⟨hwritten, hcanonical, -, hdepth⟩ := h
  rw [InfixOp.marks_apply] at hwritten
  rw [InfixOp.canonical_apply] at hcanonical
  rw [InfixOp.depth_apply, Nat.max_le] at hdepth
  obtain ⟨front, back, rfl, hleft, hwritten⟩ := written_append.mp hwritten
  obtain ⟨token, back, rfl, htoken, hright⟩ := written_cons.mp hwritten
  obtain rfl := Mark.matches_placed.mp htoken
  obtain ⟨hleftCanonical, hrightCanonical, hleftRank, hrightRank⟩ := hcanonical
  exact ⟨front, back, rfl, ⟨hleft, hleftCanonical, hleftRank, hdepth.1⟩,
    hright, hrightCanonical, hrightRank, hdepth.2⟩

theorem passes_chain {level : Level} {operand : Reader Expr} {op : InfixOp} {fuel : Nat}
    {left right result : Expr} {token : Located Token} {final : List (Located Token)}
    (hop : level.operator? token.value = some op)
    (hright : ∀ previous, operand.Passes ⟨tokens, last, previous⟩ right rest)
    (hmore : ∀ previous, (chain level operand fuel (op.apply left token.span right)).Passes
      ⟨rest, last, previous⟩ result final) :
    (chain level operand (fuel + 1) left).Passes ⟨token :: tokens, last, previous⟩ result
      final := by
  have hne : token.value ≠ .endOfInput := by
    rw [(Level.operator?_eq_some_iff.mp hop).1]
    exact op.token_ne_endOfInput
  have hpeek : level.operator? (Cursor.peek ⟨token :: tokens, last, previous⟩).value = some op :=
    hop
  rw [chain]
  refine passes_peek ?_
  rw [hpeek]
  exact passes_next hne ((hright token).bind hmore)

theorem passes_chain_end {level : Level} {operand : Reader Expr} {fuel : Nat}
    (h : level.operator? (ahead rest last) = none) :
    (chain level operand (fuel + 1) expr).Passes ⟨rest, last, previous⟩ expr rest := by
  have hpeek : level.operator? (Cursor.peek ⟨rest, last, previous⟩).value = none := h
  rw [chain]
  refine passes_peek ?_
  rw [hpeek]
  exact passes_pure expr

/-- An expression of a level is read from its leftmost operand on: reading it comes to a chain
behind it that has the expression already. The induction is on the number of its tokens. -/
theorem passes_infixed_of_chain {level : Level} {tighter : List Level}
    (hsuffix : level :: tighter <:+ Level.all)
    (hoperand : ∀ {expr : Expr} {tokens rest : List (Located Token)} {previous : Located Token},
      ReadsExpr (level.rank + 1) room expr tokens → Unextended tighter (ahead rest last) →
      4 * tokens.length ≤ scope.fuel + 2 →
      (infixed scope room tighter).Passes ⟨tokens ++ rest, last, previous⟩ expr rest)
    (h : ReadsExpr level.rank room expr tokens) (hnext : Unextended tighter (ahead rest last))
    (hfuel : 4 * tokens.length ≤ scope.fuel + 2) {result : Expr} {final : List (Located Token)}
    (hmore : ∀ fuel previous, scope.fuel < fuel + tokens.length →
      (chain level (infixed scope room tighter) fuel expr).Passes ⟨rest, last, previous⟩ result
        final) :
    (infixed scope room (level :: tighter)).Passes ⟨tokens ++ rest, last, previous⟩ result
      final := by
  induction hlength : tokens.length using Nat.strong_induction_on
    generalizing expr tokens rest previous with
  | _ length ih =>
      have hpos := Expr.length_pos_of_written h.1
      by_cases hrank : level.rank < expr.rank
      -- No operator of this level is outermost, and the chain begins behind the expression.
      · rw [infixed]
        refine (hoperand ⟨h.1, h.2.canonical, hrank, h.2.depth_le⟩ hnext hfuel).bind fun _ => ?_
        exact hmore scope.fuel _ (Nat.lt_add_of_pos_right hpos)
      · have hlevel : 1 ≤ level.rank ∧ level.rank < 7 := by cases level <;> decide
        have hrank_eq : expr.rank = level.rank := by
          have := h.2.le_rank
          omega
        obtain ⟨op, left, span, right, rfl⟩ :=
          exists_apply (hrank_eq ▸ hlevel.1) (hrank_eq ▸ hlevel.2)
        rw [InfixOp.rank_apply] at hrank_eq
        obtain ⟨front, back, rfl, hleft, hright⟩ := h.of_apply
        have hop : level.operator? op.token = some op :=
          Level.operator?_eq_some_iff.mpr ⟨rfl, hrank_eq⟩
        rw [hrank_eq] at hleft hright
        rw [List.length_append, List.length_cons] at hlength hfuel hmore
        rw [List.append_assoc]
        -- The left side is shorter, and the chain behind it goes on with the operator.
        refine ih front.length (by omega) hleft (unextended_token hsuffix hrank_eq) (by omega) ?_
          rfl
        intro fuel previous hlt
        obtain ⟨fuel, rfl⟩ : ∃ inner, fuel = inner + 1 := ⟨fuel - 1, by omega⟩
        refine passes_chain hop (fun _ => hoperand hright hnext (by omega)) fun previous => ?_
        exact hmore fuel previous (by omega)

theorem passes_infixed (hscope : scope.Complete) {levels : List Level}
    (hsuffix : levels <:+ Level.all) (h : ReadsExpr (tightness levels) room expr tokens)
    (hnext : Unextended levels (ahead rest last)) (hfuel : 4 * tokens.length ≤ scope.fuel + 2) :
    (infixed scope room levels).Passes ⟨tokens ++ rest, last, previous⟩ expr rest := by
  induction levels generalizing expr tokens rest previous with
  | nil =>
      rw [infixed]
      exact hscope.operand h hnext.1 hfuel
  | cons level tighter ih =>
      have htighter := (List.suffix_cons level tighter).trans hsuffix
      obtain ⟨hlevel, hlevels⟩ := List.forall_mem_cons.mp hnext.2
      refine passes_infixed_of_chain hsuffix ?_ h ⟨hnext.1, hlevels⟩ hfuel ?_
      · intro expr tokens rest previous h
        rw [← tightness_tighter hsuffix] at h
        exact ih htighter h
      · intro fuel previous hlt
        have hpos := Expr.length_pos_of_written h.1
        obtain ⟨fuel, rfl⟩ : ∃ inner, fuel = inner + 1 := ⟨fuel - 1, by omega⟩
        exact passes_chain_end hlevel

theorem rank_pos_or_assign (expr : Expr) :
    1 ≤ expr.rank ∨ ∃ name value, expr = .assign name value := by
  cases expr with
  | assign name value => exact .inr ⟨name, value, rfl⟩
  | binary left op right =>
      left
      rw [Expr.rank]
      cases op.value <;> decide
  | logical left op right =>
      left
      rw [Expr.rank]
      cases op.value <;> decide
  | _ => exact .inl (by simp [Expr.rank])

theorem passes_assignment (hscope : scope.Complete) (h : ReadsExpr 0 room expr tokens)
    (hends : (ahead rest last).endsExpr = true) (hfuel : 4 * tokens.length ≤ scope.fuel + 2) :
    (assignment scope room).Passes ⟨tokens ++ rest, last, previous⟩ expr rest := by
  rw [assignment]
  rcases rank_pos_or_assign expr with hrank | ⟨name, value, rfl⟩
  · refine (passes_infixed hscope List.suffix_rfl ⟨h.1, h.2.canonical, hrank, h.2.depth_le⟩
      (unextended_of_endsExpr hends _) hfuel).bind fun _ => ?_
    refine passes_eat_of_ne ?_ (passes_pure expr)
    intro hpeek
    have hahead : ahead rest last = .symbol .assign := hpeek
    rw [hahead] at hends
    cases hends
  · obtain ⟨hwritten, hcanonical, -, hdepth⟩ := h
    rw [Expr.marks] at hwritten
    obtain ⟨target, back, rfl, htarget, hwritten⟩ := written_cons.mp hwritten
    obtain ⟨equals, back, rfl, hequals, hvalue⟩ := written_cons.mp hwritten
    rw [Mark.matches_symbol] at hequals
    simp only [List.length_cons] at hfuel
    -- The target is read as an expression before the equals sign is seen.
    have hvar : ReadsExpr (tightness Level.all) room (.var name) [target] :=
      ⟨.cons htarget .nil, trivial, Nat.le_add_left 1 8, Nat.zero_le room⟩
    have hnext : Unextended Level.all (ahead (equals :: (back ++ rest)) last) := by
      have hahead : ahead (equals :: (back ++ rest)) last = .symbol .assign := hequals
      rw [hahead]
      exact ⟨by decide, by decide⟩
    refine (passes_infixed hscope List.suffix_rfl hvar hnext ?_).bind fun _ => ?_
    · rw [List.length_singleton]
      omega
    · refine passes_eat hequals (by decide) (passes_previousSpan ?_)
      refine (hscope.expression ⟨hvalue, hcanonical, hdepth⟩ hends (by omega)).bind fun _ => ?_
      exact passes_pure _

/-! ## Operands -/

theorem passes_parameters {names : List (Located String)}
    (h : Written (listed (names.map fun name => [.name name]) ++ [.symbol .closeParen]) tokens)
    (hlength : names.length ≤ maxListed) (hfuel : tokens.length ≤ scope.fuel) :
    (parameters scope).Passes ⟨tokens ++ rest, last, previous⟩ names rest := by
  obtain ⟨front, close, rfl, hnames, hclose⟩ := written_concat.mp h
  rw [Mark.matches_symbol] at hclose
  rw [List.length_append, List.length_singleton] at hfuel
  have hseparated := separated_or_nil hnames (fun _ _ => trivial)
  rw [parameters, List.append_assoc]
  refine passes_listing ?_ ?_ hclose hseparated ?_ hlength fun _ => ?_
  · intro name piece rest previous hname _
    exact passes_expectName hname.1
  · intro name piece rest hname
    rw [hname.1.ahead_eq]
    simp [Mark.name, Mark.placed]
  · rcases hseparated with ⟨rfl, -⟩ | hseparated
    · exact Nat.zero_le _
    · exact hseparated.length_le.trans hfuel
  · exact passes_expectSymbol hclose (passes_pure names)

theorem atBlockEnd_of_opensStmt {cursor : Cursor} (h : cursor.peek.value.opensStmt = true) :
    ¬ atBlockEnd cursor = true := by
  intro hend
  rw [atBlockEnd, Cursor.atEnd, Bool.or_eq_true, decide_eq_true_eq, decide_eq_true_eq] at hend
  rcases hend with hend | hend
  · rw [hend] at h
    cases h
  · rw [hend] at h
    cases h

theorem atBlockEnd_of_closeCurly {cursor : Cursor}
    (h : cursor.peek.value = .symbol .closeCurly) : atBlockEnd cursor = true := by
  rw [atBlockEnd, decide_eq_true h, Bool.true_or]

theorem passes_block (hscope : scope.Complete) {body : List Stmt}
    (h : Written (Stmt.marksOf body ++ [.symbol .closeCurly]) tokens)
    (hbody : Stmt.AllCanonical body ∧ Stmt.depthOf body ≤ room)
    (hfuel : 4 * tokens.length ≤ scope.fuel + 3) :
    (block scope room).Passes ⟨tokens ++ rest, last, previous⟩ body rest := by
  rw [Stmt.marksOf_eq] at h
  obtain ⟨front, close, rfl, hfront, hclose⟩ := written_concat.mp h
  rw [Mark.matches_symbol] at hclose
  rw [List.length_append, List.length_singleton] at hfuel
  have hsequence := sequence_iff.mpr ⟨hfront, Stmt.all_iff.mp hbody⟩
  have hlength := hsequence.length_le fun hstmt => Stmt.length_pos_of_written hstmt.1
  have hclosed : ahead ([close] ++ rest) last = .symbol .closeCurly := hclose
  rw [block, List.append_assoc]
  refine (passes_collect (· ≠ .keyword .kwElse) ?_
    (fun hstmt => Token.ne_else_of_opensStmt (hstmt.1.1.opensStmt _ last)) ?_ ?_ ?_
    (hsequence.bounded (Nat.le_refl _)) (by omega) []).bind fun _ => ?_
  · intro stmt piece rest previous hstmt hnext
    exact hscope.declaration hstmt.1 (fun _ => hnext) (by omega)
  · intro stmt piece rest previous hstmt
    exact atBlockEnd_of_opensStmt (hstmt.1.1.opensStmt rest last)
  · intro previous
    exact atBlockEnd_of_closeCurly hclosed
  · rw [hclosed]
    decide
  · exact passes_expectSymbol hclose (passes_pure body)

theorem passes_lambda (hscope : scope.Complete) {names : List (Located String)} {body : List Stmt}
    {word : Located Token} (h : ReadsExpr 7 room (.lambda names body) (word :: tokens))
    (hfuel : 4 * (word :: tokens).length ≤ scope.fuel + 3) :
    (lambda scope room).Passes ⟨tokens ++ rest, last, previous⟩ (.lambda names body) rest := by
  obtain ⟨hwritten, ⟨hlength, hcanonical⟩, -, hdepth⟩ := h
  rw [Expr.marks] at hwritten
  obtain ⟨_, _, ⟨⟩, -, hwritten⟩ := written_cons.mp hwritten
  obtain ⟨paren, front, curly, back, rfl, hparen, hnames, hcurly, hbody⟩ := written_body.mp hwritten
  simp only [List.length_cons, List.length_append] at hfuel
  rw [lambda, List.cons_append, List.append_assoc]
  refine passes_expectSymbol hparen ?_
  refine (passes_parameters hnames hlength (by omega)).bind fun _ => ?_
  refine passes_expectSymbol hcurly ?_
  exact (passes_block hscope hbody ⟨hcanonical, hdepth⟩ (by omega)).bind fun _ => passes_pure _

theorem passes_primary (hscope : scope.Complete) (h : ReadsExpr 9 room expr tokens)
    (hfuel : 4 * tokens.length ≤ scope.fuel + 3) :
    (primary scope room).Passes ⟨tokens ++ rest, last, previous⟩ expr rest := by
  obtain ⟨hwritten, hcanonical, hrank, hdepth⟩ := h
  rw [primary]
  refine passes_peek ?_
  cases expr with
  | literal value span =>
      rw [Expr.marks] at hwritten
      obtain ⟨token, _, rfl, htoken, hnil⟩ := written_cons.mp hwritten
      obtain rfl := written_nil.mp hnil
      obtain rfl : span = some token.span := htoken.2 span rfl
      have hvalue : literal? (Cursor.peek ⟨[token] ++ rest, last, previous⟩).value = some value :=
        literal?_eq_some_iff.mpr htoken.1
      rw [hvalue]
      exact passes_next (htoken.1 ▸ value.token_ne_endOfInput) (passes_pure _)
  | var name =>
      rw [Expr.marks] at hwritten
      obtain ⟨token, _, rfl, htoken, hnil⟩ := written_cons.mp hwritten
      obtain rfl := written_nil.mp hnil
      obtain rfl := Mark.matches_name.mp htoken
      exact passes_next (by simp) (passes_pure _)
  | grouping inner =>
      rw [Expr.marks] at hwritten
      obtain ⟨⟨paren, span⟩, _, rfl, hparen, hwritten⟩ := written_cons.mp hwritten
      obtain ⟨front, close, rfl, hinner, hclose⟩ := written_concat.mp hwritten
      obtain rfl : paren = .symbol .openParen := Mark.matches_symbol.mp hparen
      rw [Mark.matches_symbol] at hclose
      simp only [List.length_cons, List.length_append] at hfuel
      rw [List.cons_append, List.append_assoc]
      refine passes_next (by simp) ?_
      refine (hscope.expression ⟨hinner, hcanonical, hdepth⟩ (endsExpr_ahead hclose rfl)
        (by omega)).bind fun _ => ?_
      exact passes_expectSymbol hclose (passes_pure _)
  | binary left op right =>
      exact absurd op.value.rank_lt (Nat.not_lt_of_lt (Nat.lt_of_succ_lt hrank))
  | logical left op right =>
      exact absurd op.value.rank_lt (Nat.not_lt_of_lt (Nat.lt_of_succ_lt hrank))
  | _ => exact absurd hrank (by simp [Expr.rank])

theorem passes_arguments (hscope : scope.Complete) {values : List Expr} {paren : Span}
    (h : Written (listed (Expr.marksOf values) ++ [.placed (.symbol .closeParen) paren]) tokens)
    (hlength : values.length ≤ maxListed)
    (hvalues : Expr.AllCanonical values ∧ Expr.depthOf values ≤ room)
    (hfuel : 4 * tokens.length ≤ scope.fuel + 3) :
    (arguments scope room).Passes ⟨tokens ++ rest, last, previous⟩ (values, paren) rest := by
  rw [Expr.marksOf_eq] at h
  obtain ⟨front, close, rfl, hlisted, hclose⟩ := written_concat.mp h
  obtain rfl := Mark.matches_placed.mp hclose
  rw [List.length_append, List.length_singleton] at hfuel
  have hseparated := (separated_or_nil hlisted (Expr.all_iff.mp hvalues)).imp_right
    fun hpieces => hpieces.bounded (Nat.le_refl front.length)
  rw [arguments, List.append_assoc]
  refine passes_listing ?_ ?_ rfl hseparated ?_ hlength fun _ => ?_
  · intro value piece rest previous hvalue hends
    refine hscope.expression hvalue.1 ?_ (by omega)
    rcases hends with hends | hends <;> rw [hends] <;> rfl
  · intro value piece rest hvalue hclosed
    have hopens := hvalue.1.1.opensExpr rest last
    rw [hclosed] at hopens
    cases hopens
  · rcases hseparated with ⟨rfl, -⟩ | hseparated
    · exact Nat.zero_le _
    · have := hseparated.length_le
      omega
  · exact passes_expectSymbol rfl (passes_pure _)

theorem exists_call {expr : Expr} (hrank : expr.rank = 8) :
    ∃ callee paren values, expr = .call callee paren values := by
  cases expr with
  | call callee paren values => exact ⟨callee, paren, values, rfl⟩
  | binary left op right => exact absurd op.value.rank_lt (by rw [Expr.rank] at hrank; omega)
  | logical left op right => exact absurd op.value.rank_lt (by rw [Expr.rank] at hrank; omega)
  | _ => exact absurd hrank (by simp [Expr.rank])

/-- A call is read from what is called first on: reading it comes to further calls of it. The
induction is on the number of its tokens. -/
theorem passes_primary_of_calls (hscope : scope.Complete) (h : ReadsExpr 8 room expr tokens)
    (hfuel : 4 * tokens.length ≤ scope.fuel + 3) {result : Expr} {final : List (Located Token)}
    (hmore : ∀ fuel previous, scope.fuel < fuel + tokens.length →
      (calls scope room fuel expr).Passes ⟨rest, last, previous⟩ result final) :
    (primary scope room >>= fun callee => calls scope room scope.fuel callee).Passes
      ⟨tokens ++ rest, last, previous⟩ result final := by
  induction hlength : tokens.length using Nat.strong_induction_on
    generalizing expr tokens rest previous with
  | _ length ih =>
      by_cases hrank : 9 ≤ expr.rank
      · have hpos := Expr.length_pos_of_written h.1
        refine (passes_primary hscope ⟨h.1, h.2.canonical, hrank, h.2.depth_le⟩ hfuel).bind ?_
        exact fun previous => hmore scope.fuel previous (by omega)
      · have hrank_eq : expr.rank = 8 := by
          have := h.2.le_rank
          omega
        obtain ⟨callee, paren, values, rfl⟩ := exists_call hrank_eq
        obtain ⟨hwritten, ⟨hcallee, hcalleeRank, hcount, hvalues⟩, -, hdepth⟩ := h
        rw [Expr.depth, Nat.max_le] at hdepth
        rw [Expr.marks] at hwritten
        obtain ⟨front, _, rfl, hfront, hwritten⟩ := written_append.mp hwritten
        obtain ⟨opening, back, rfl, hopening, hback⟩ := written_cons.mp hwritten
        rw [Mark.matches_symbol] at hopening
        rw [List.length_append, List.length_cons] at hlength hfuel hmore
        rw [List.append_assoc]
        refine ih front.length (by omega) ⟨hfront, hcallee, hcalleeRank, hdepth.1⟩ (by omega) ?_ rfl
        intro fuel previous hlt
        obtain ⟨fuel, rfl⟩ : ∃ inner, fuel = inner + 1 := ⟨fuel - 1, by omega⟩
        rw [calls]
        refine passes_eat hopening (by decide) ?_
        refine (passes_arguments hscope hback hcount ⟨hvalues, hdepth.2⟩ (by omega)).bind ?_
        exact fun previous => hmore fuel previous (by omega)

theorem passes_operand (hscope : scope.Complete) (h : ReadsExpr 7 room expr tokens)
    (hnext : ahead rest last ≠ .symbol .openParen) (hfuel : 4 * tokens.length ≤ scope.fuel + 3) :
    (operand scope room).Passes ⟨tokens ++ rest, last, previous⟩ expr rest := by
  rw [operand]
  by_cases hrank : 8 ≤ expr.rank
  -- The first token of a call or of what stands for itself is no `fun` and no unary operator.
  · have hcall : ReadsExpr 8 room expr tokens := ⟨h.1, h.2.canonical, hrank, h.2.depth_le⟩
    have hopens : (ahead (tokens ++ rest) last).opensCall = true := by
      obtain ⟨mark, marks, hmarks, hopens⟩ := Expr.exists_first_of_le_rank h.2.canonical hrank
      have hwritten := h.1
      rw [hmarks] at hwritten
      rwa [hwritten.ahead_eq]
    have hunary : unary? (Cursor.peek ⟨tokens ++ rest, last, previous⟩).value = none :=
      Token.unary?_of_opensCall hopens
    refine passes_eat_of_ne (fun hfun => ?_) (passes_peek ?_)
    · have hahead : ahead (tokens ++ rest) last = .keyword .kwFun := hfun
      rw [hahead] at hopens
      cases hopens
    · rw [hunary]
      refine passes_primary_of_calls hscope hcall hfuel fun fuel previous hlt => ?_
      obtain ⟨fuel, rfl⟩ : ∃ inner, fuel = inner + 1 := ⟨fuel - 1, by omega⟩
      rw [calls]
      exact passes_eat_of_ne hnext (passes_pure _)
  · have hwritten := h.1
    cases expr with
    | lambda names body =>
        rw [Expr.marks] at hwritten
        obtain ⟨word, tokens, rfl, hword, -⟩ := written_cons.mp hwritten
        exact passes_eat (Mark.matches_keyword.mp hword) (by decide) (passes_lambda hscope h hfuel)
    | unary op right =>
        obtain ⟨-, ⟨hcanonical, hright⟩, -, hdepth⟩ := h
        rw [Expr.marks] at hwritten
        obtain ⟨token, tokens, rfl, htoken, hback⟩ := written_cons.mp hwritten
        obtain rfl := Mark.matches_placed.mp htoken
        have hop : unary? op.value.token = some op.value := unary?_eq_some_iff.mpr rfl
        rw [Expr.depth] at hdepth
        obtain ⟨room, rfl⟩ : ∃ inner, room = inner + 1 := ⟨room - 1, by omega⟩
        rw [List.length_cons] at hfuel
        refine passes_eat_of_ne (fun hfun => ?_) (passes_peek ?_)
        · have hfun : op.value.token = .keyword .kwFun := hfun
          rw [hfun] at hop
          cases hop
        · have hpeek : unary? (Cursor.peek ⟨⟨op.value.token, op.span⟩ :: tokens ++ rest, last,
              previous⟩).value = some op.value := hop
          rw [hpeek]
          refine passes_next op.value.token_ne_endOfInput ?_
          refine (passes_nested (hscope.operand ⟨hback, hcanonical, hright,
            Nat.le_of_succ_le_succ hdepth⟩ hnext (by omega))).bind fun _ => ?_
          exact passes_pure _
    | binary left op right => exact absurd op.value.rank_lt (Nat.not_lt_of_le h.2.le_rank)
    | logical left op right => exact absurd op.value.rank_lt (Nat.not_lt_of_le h.2.le_rank)
    | assign => exact absurd h.2.le_rank (by simp [Expr.rank])
    | _ => exact absurd hrank (by simp [Expr.rank])

/-! ## Statements -/

variable {stmt : Stmt} {word after : Located Token}

theorem passes_eat_other {α : Type} {next : Bool → Reader α} {token found : Token} {value : α}
    {final : List (Located Token)} (hword : word.value = found) (hne : found ≠ token)
    (h : (next false).Passes ⟨word :: tokens, last, previous⟩ value final) :
    (eat token >>= next).Passes ⟨word :: tokens, last, previous⟩ value final := by
  refine passes_eat_of_ne (fun hpeek => ?_) h
  have hvalue : word.value = token := hpeek
  exact hne (hword.symm.trans hvalue)

theorem passes_clause_none {stop : Symbol} (h : ahead rest last = .symbol stop) :
    (clause scope room stop).Passes ⟨rest, last, previous⟩ none rest := by
  have hpeek : (Cursor.peek ⟨rest, last, previous⟩).value = .symbol stop := h
  rw [clause]
  refine passes_isAhead ?_
  rw [decide_eq_true hpeek]
  exact passes_pure none

theorem passes_clause_some (hscope : scope.Complete) {stop : Symbol}
    (hstop : (Token.symbol stop).opensExpr = false) (h : ReadsFull room expr tokens)
    (hends : (ahead rest last).endsExpr = true) (hfuel : 4 * tokens.length ≤ scope.fuel + 1) :
    (clause scope room stop).Passes ⟨tokens ++ rest, last, previous⟩ (some expr) rest := by
  rw [clause]
  refine passes_isAhead ?_
  rw [decide_eq_false (h.1.peek_ne hstop)]
  exact (hscope.expression h hends hfuel).map some

theorem passes_expressionStatement (hscope : scope.Complete)
    (h : ReadsStatement (room + 1) (.expression expr) tokens ⟨rest, last, after⟩)
    (hfuel : 4 * tokens.length ≤ scope.fuel + 1) :
    (expressionStatement scope room).Passes ⟨tokens ++ rest, last, previous⟩ (.expression expr)
      rest := by
  have hwritten := h.written
  rw [Stmt.marks] at hwritten
  obtain ⟨front, close, rfl, hfront, hclose⟩ := written_concat.mp hwritten
  rw [Mark.matches_symbol] at hclose
  rw [List.length_append] at hfuel
  rw [expressionStatement, List.append_assoc]
  refine (hscope.expression ⟨hfront, h.canonical, Nat.le_of_succ_le_succ h.depth_le⟩
    (endsExpr_ahead hclose rfl) (by omega)).bind fun _ => ?_
  exact passes_expectSymbol hclose (passes_pure _)

theorem passes_printStatement (hscope : scope.Complete)
    (h : ReadsStatement (room + 1) (.print expr) (word :: tokens) ⟨rest, last, after⟩)
    (hfuel : 4 * (word :: tokens).length ≤ scope.fuel + 1) :
    (printStatement scope room).Passes ⟨tokens ++ rest, last, previous⟩ (.print expr) rest := by
  have hwritten := h.written
  rw [Stmt.marks] at hwritten
  obtain ⟨_, _, ⟨⟩, -, hwritten⟩ := written_cons.mp hwritten
  obtain ⟨front, close, rfl, hfront, hclose⟩ := written_concat.mp hwritten
  rw [Mark.matches_symbol] at hclose
  rw [List.length_cons, List.length_append] at hfuel
  rw [printStatement, List.append_assoc]
  refine (hscope.expression ⟨hfront, h.canonical, Nat.le_of_succ_le_succ h.depth_le⟩
    (endsExpr_ahead hclose rfl) (by omega)).bind fun _ => ?_
  exact passes_expectSymbol hclose (passes_pure _)

theorem passes_returnStatement (hscope : scope.Complete) {keyword : Span} {value : Option Expr}
    (h : ReadsStatement (room + 1) (.ret keyword value) (word :: tokens) ⟨rest, last, after⟩)
    (hfuel : 4 * (word :: tokens).length ≤ scope.fuel + 1) :
    (returnStatement scope room).Passes ⟨tokens ++ rest, last, word⟩ (.ret keyword value) rest := by
  have hwritten := h.written
  rw [List.length_cons] at hfuel
  rw [returnStatement]
  refine passes_previousSpan ?_
  cases value with
  | none =>
      rw [Stmt.marks] at hwritten
      obtain ⟨_, _, ⟨⟩, hword, hwritten⟩ := written_cons.mp hwritten
      obtain ⟨close, _, rfl, hclose, hnil⟩ := written_cons.mp hwritten
      obtain rfl := written_nil.mp hnil
      obtain rfl := Mark.matches_placed.mp hword
      rw [Mark.matches_symbol] at hclose
      have hahead : ahead (close :: rest) last = .symbol .semicolon := hclose
      refine (passes_clause_none hahead).bind fun _ => ?_
      exact passes_expectSymbol hclose (passes_pure _)
  | some value =>
      rw [Stmt.marks] at hwritten
      obtain ⟨_, _, ⟨⟩, hword, hwritten⟩ := written_cons.mp hwritten
      obtain ⟨front, close, rfl, hfront, hclose⟩ := written_concat.mp hwritten
      obtain rfl := Mark.matches_placed.mp hword
      rw [Mark.matches_symbol] at hclose
      rw [List.length_append] at hfuel
      rw [List.append_assoc]
      refine (passes_clause_some hscope rfl
        ⟨hfront, h.canonical, Nat.le_of_succ_le_succ h.depth_le⟩ (endsExpr_ahead hclose rfl)
        (by omega)).bind fun _ => ?_
      exact passes_expectSymbol hclose (passes_pure _)

/-- A condition in its parentheses is read, and then what stands behind it. -/
theorem passes_condition (hscope : scope.Complete) {keyword : Keyword} {condition : Expr}
    {marks : List Mark} {before behind : String} {next : Expr → Reader Stmt}
    (h : Written (.keyword keyword :: .symbol .openParen ::
      (condition.marks ++ .symbol .closeParen :: marks)) (word :: tokens))
    (hcondition : condition.Canonical ∧ condition.depth + 1 ≤ room)
    (hfuel : 4 * (word :: tokens).length ≤ scope.fuel + 1)
    (hnext : ∀ {tail previous}, Written marks tail → 4 * tail.length ≤ scope.fuel →
      (next condition).Passes ⟨tail ++ rest, last, previous⟩ stmt rest) :
    (expectSymbol .openParen before >>= fun _ => scope.expression room >>= fun condition =>
      expectSymbol .closeParen behind >>= fun _ => next condition).Passes
        ⟨tokens ++ rest, last, previous⟩ stmt rest := by
  obtain ⟨_, paren, front, close, tail, ⟨⟩, -, hparen, hfront, hclose, htail⟩ :=
    written_condition.mp h
  simp only [List.length_cons, List.length_append] at hfuel
  rw [List.cons_append, List.append_assoc]
  refine passes_expectSymbol hparen ?_
  refine (hscope.expression ⟨hfront, hcondition⟩ (endsExpr_ahead hclose rfl) (by omega)).bind
    fun _ => ?_
  exact passes_expectSymbol hclose (hnext htail (by omega))

theorem passes_whileStatement (hscope : scope.Complete) {condition : Expr} {body : Stmt}
    (h : ReadsStatement (room + 1) (.whileLoop condition body) (word :: tokens)
      ⟨rest, last, after⟩)
    (hfuel : 4 * (word :: tokens).length ≤ scope.fuel + 1) :
    (whileStatement scope room).Passes ⟨tokens ++ rest, last, previous⟩ (.whileLoop condition body)
      rest := by
  obtain ⟨hwritten, ⟨hcondition, hbody, hdeclares⟩, hdepth, -, hnext⟩ := h
  rw [Stmt.depth, Nat.succ_le_succ_iff, Nat.max_le] at hdepth
  rw [Stmt.marks] at hwritten
  rw [whileStatement]
  refine passes_condition hscope hwritten ⟨hcondition, hdepth.1⟩ hfuel fun htail hfuel => ?_
  refine (hscope.statement ⟨htail, hbody, hdepth.2, hdeclares, hnext⟩ hfuel).bind fun _ => ?_
  exact passes_pure _

theorem passes_ifThen (hscope : scope.Complete) {condition : Expr} {thenBranch : Stmt}
    (h : ReadsStatement (room + 1) (.ifThen condition thenBranch) (word :: tokens)
      ⟨rest, last, after⟩)
    (hfuel : 4 * (word :: tokens).length ≤ scope.fuel + 1) :
    (ifStatement scope room).Passes ⟨tokens ++ rest, last, previous⟩ (.ifThen condition thenBranch)
      rest := by
  obtain ⟨hwritten, ⟨hcondition, hthen, hdeclares⟩, hdepth, -, hnext⟩ := h
  rw [Stmt.depth, Nat.succ_le_succ_iff, Nat.max_le] at hdepth
  rw [Stmt.marks] at hwritten
  rw [ifStatement]
  refine passes_condition hscope hwritten ⟨hcondition, hdepth.1⟩ hfuel fun htail hfuel => ?_
  refine (hscope.statement ⟨htail, hthen, hdepth.2, hdeclares, fun _ => hnext rfl⟩ hfuel).bind
    fun _ => ?_
  exact passes_eat_of_ne (hnext rfl) (passes_pure _)

theorem passes_ifElse (hscope : scope.Complete) {condition : Expr} {thenBranch elseBranch : Stmt}
    (h : ReadsStatement (room + 1) (.ifElse condition thenBranch elseBranch) (word :: tokens)
      ⟨rest, last, after⟩)
    (hfuel : 4 * (word :: tokens).length ≤ scope.fuel + 1) :
    (ifStatement scope room).Passes ⟨tokens ++ rest, last, previous⟩
      (.ifElse condition thenBranch elseBranch) rest := by
  obtain ⟨hwritten, ⟨hcondition, hthen, hthenDeclares, hclosed, helse, helseDeclares⟩, hdepth, -,
    hnext⟩ := h
  rw [Stmt.depth, Nat.succ_le_succ_iff, Nat.max_le, Nat.max_le] at hdepth
  rw [Stmt.marks] at hwritten
  rw [ifStatement]
  refine passes_condition hscope hwritten ⟨hcondition, hdepth.1⟩ hfuel fun htail hfuel => ?_
  obtain ⟨thenTokens, _, rfl, hthenTokens, htail⟩ := written_append.mp htail
  obtain ⟨other, elseTokens, rfl, hother, helseTokens⟩ := written_cons.mp htail
  rw [Mark.matches_keyword] at hother
  rw [List.length_append, List.length_cons] at hfuel
  rw [List.append_assoc]
  -- The first branch is closed, so it may stand before the `else` that it is followed by.
  have hfirst : ReadsStatement room thenBranch thenTokens
      ⟨other :: (elseTokens ++ rest), last, after⟩ :=
    ⟨hthenTokens, hthen, hdepth.2.1, hthenDeclares,
      fun hopen => absurd hopen (Bool.eq_false_iff.mp hclosed)⟩
  refine (hscope.statement hfirst (by omega)).bind fun _ => ?_
  refine passes_eat hother (by decide) ?_
  refine (hscope.statement ⟨helseTokens, helse, hdepth.2.2, helseDeclares, hnext⟩
    (by omega)).bind fun _ => ?_
  exact passes_pure _

theorem passes_statement (hscope : scope.Complete)
    (h : ReadsStatement (room + 1) stmt tokens ⟨rest, last, after⟩)
    (hfuel : 4 * tokens.length ≤ scope.fuel + 1) :
    (statement scope room).Passes ⟨tokens ++ rest, last, previous⟩ stmt rest := by
  have hwritten := h.written
  rw [statement]
  cases stmt with
  | expression expr =>
      rw [Stmt.marks] at hwritten
      obtain ⟨front, back, rfl, hfront, -⟩ := written_append.mp hwritten
      have hne : ∀ {token : Token}, token.opensExpr = false →
          (Cursor.peek ⟨front ++ back ++ rest, last, previous⟩).value ≠ token := by
        intro token htoken
        rw [List.append_assoc]
        exact hfront.peek_ne htoken
      refine passes_eat_of_ne (hne rfl) (passes_eat_of_ne (hne rfl) ?_)
      refine passes_eat_of_ne (hne rfl) (passes_eat_of_ne (hne rfl) ?_)
      refine passes_eat_of_ne (hne rfl) (passes_eat_of_ne (hne rfl) ?_)
      exact passes_expressionStatement hscope h hfuel
  | ifThen condition thenBranch =>
      rw [Stmt.marks] at hwritten
      obtain ⟨word, tokens, rfl, hword, -⟩ := written_cons.mp hwritten
      rw [Mark.matches_keyword] at hword
      refine passes_eat_other hword (by decide) ?_
      exact passes_eat hword (by decide) (passes_ifThen hscope h hfuel)
  | ifElse condition thenBranch elseBranch =>
      rw [Stmt.marks] at hwritten
      obtain ⟨word, tokens, rfl, hword, -⟩ := written_cons.mp hwritten
      rw [Mark.matches_keyword] at hword
      refine passes_eat_other hword (by decide) ?_
      exact passes_eat hword (by decide) (passes_ifElse hscope h hfuel)
  | print value =>
      rw [Stmt.marks] at hwritten
      obtain ⟨word, tokens, rfl, hword, -⟩ := written_cons.mp hwritten
      rw [Mark.matches_keyword] at hword
      refine passes_eat_other hword (by decide) (passes_eat_other hword (by decide) ?_)
      exact passes_eat hword (by decide) (passes_printStatement hscope h hfuel)
  | ret keyword value =>
      obtain ⟨word, tokens, rfl, hword⟩ : ∃ word tail, tokens = word :: tail ∧
          word.value = .keyword .kwReturn := by
        cases value <;> rw [Stmt.marks] at hwritten <;>
          obtain ⟨word, tail, rfl, hword, -⟩ := written_cons.mp hwritten <;>
          exact ⟨word, tail, rfl, hword.1⟩
      refine passes_eat_other hword (by decide) (passes_eat_other hword (by decide) ?_)
      refine passes_eat_other hword (by decide) ?_
      exact passes_eat hword (by decide) (passes_returnStatement hscope h hfuel)
  | whileLoop condition body =>
      rw [Stmt.marks] at hwritten
      obtain ⟨word, tokens, rfl, hword, -⟩ := written_cons.mp hwritten
      rw [Mark.matches_keyword] at hword
      refine passes_eat_other hword (by decide) (passes_eat_other hword (by decide) ?_)
      refine passes_eat_other hword (by decide) (passes_eat_other hword (by decide) ?_)
      exact passes_eat hword (by decide) (passes_whileStatement hscope h hfuel)
  | block body =>
      rw [Stmt.marks] at hwritten
      obtain ⟨curly, tokens, rfl, hcurly, hbody⟩ := written_cons.mp hwritten
      rw [Mark.matches_symbol] at hcurly
      rw [List.length_cons] at hfuel
      refine passes_eat_other hcurly (by decide) (passes_eat_other hcurly (by decide) ?_)
      refine passes_eat_other hcurly (by decide) (passes_eat_other hcurly (by decide) ?_)
      refine passes_eat_other hcurly (by decide) (passes_eat hcurly (by decide) ?_)
      exact (passes_block hscope hbody ⟨h.canonical, Nat.le_of_succ_le_succ h.depth_le⟩
        (by omega)).map Stmt.block
  | varDef => cases h.not_declaration
  | funDef => cases h.not_declaration
  | classDef => cases h.not_declaration

/-! ## Declarations -/

theorem passes_function (hscope : scope.Complete) (kind : String) {function : Function}
    (h : Written function.marks tokens)
    (hfunction : function.Canonical ∧ function.depth ≤ room)
    (hfuel : 4 * tokens.length ≤ scope.fuel + 3) :
    (Grammar.function scope room kind).Passes ⟨tokens ++ rest, last, previous⟩ function rest := by
  obtain ⟨name, names, body⟩ := function
  obtain ⟨⟨hlength, hcanonical⟩, hdepth⟩ := hfunction
  rw [Function.marks] at h
  obtain ⟨token, _, rfl, hname, hwritten⟩ := written_cons.mp h
  obtain ⟨paren, front, curly, back, rfl, hparen, hnames, hcurly, hbody⟩ := written_body.mp hwritten
  simp only [List.length_cons, List.length_append] at hfuel
  rw [Grammar.function]
  refine (passes_expectName (.cons hname .nil)).bind fun _ => ?_
  refine passes_expectSymbol hparen ?_
  rw [List.append_eq, List.append_assoc]
  refine (passes_parameters hnames hlength (by omega)).bind fun _ => ?_
  refine passes_expectSymbol hcurly ?_
  exact (passes_block hscope hbody ⟨hcanonical, hdepth⟩ (by omega)).bind fun _ => passes_pure _

theorem passes_varDefinition (hscope : scope.Complete) {name : Located String}
    {initializer : Option Expr}
    (h : ReadsDeclaration room (.varDef name initializer) (word :: tokens))
    (hfuel : 4 * (word :: tokens).length ≤ scope.fuel) :
    (varDefinition scope room).Passes ⟨tokens ++ rest, last, previous⟩ (.varDef name initializer)
      rest := by
  obtain ⟨hwritten, hcanonical, -, hdepth⟩ := h
  rw [varDefinition]
  cases initializer with
  | none =>
      rw [Stmt.marks] at hwritten
      obtain ⟨_, _, ⟨⟩, -, hwritten⟩ := written_cons.mp hwritten
      obtain ⟨token, _, rfl, hname, hwritten⟩ := written_cons.mp hwritten
      obtain ⟨close, _, rfl, hclose, hnil⟩ := written_cons.mp hwritten
      obtain rfl := written_nil.mp hnil
      rw [Mark.matches_symbol] at hclose
      refine (passes_expectName (.cons hname .nil)).bind fun _ => ?_
      refine passes_eat_other hclose (by decide) ?_
      exact passes_expectSymbol hclose (passes_pure _)
  | some value =>
      rw [Stmt.marks] at hwritten
      obtain ⟨_, _, ⟨⟩, -, hwritten⟩ := written_cons.mp hwritten
      obtain ⟨token, _, rfl, hname, hwritten⟩ := written_cons.mp hwritten
      obtain ⟨equals, _, rfl, hequals, hwritten⟩ := written_cons.mp hwritten
      obtain ⟨front, close, rfl, hfront, hclose⟩ := written_concat.mp hwritten
      rw [Mark.matches_symbol] at hequals hclose
      simp only [List.length_cons, List.length_append] at hfuel
      refine (passes_expectName (.cons hname .nil)).bind fun _ => ?_
      refine passes_eat hequals (by decide) ?_
      rw [List.append_eq, List.append_assoc]
      refine ((hscope.expression ⟨hfront, hcanonical, hdepth⟩ (endsExpr_ahead hclose rfl)
        (by omega)).map some).bind fun _ => ?_
      exact passes_expectSymbol hclose (passes_pure _)

theorem passes_classDefinition (hscope : scope.Complete) {name : Located String}
    {methods : List Function} (h : ReadsDeclaration room (.classDef name methods) (word :: tokens))
    (hfuel : 4 * (word :: tokens).length ≤ scope.fuel) :
    (classDefinition scope room).Passes ⟨tokens ++ rest, last, previous⟩ (.classDef name methods)
      rest := by
  obtain ⟨hwritten, hcanonical, -, hdepth⟩ := h
  rw [Stmt.marks, Function.marksOf_eq] at hwritten
  obtain ⟨_, _, ⟨⟩, -, hwritten⟩ := written_cons.mp hwritten
  obtain ⟨token, _, rfl, hname, hwritten⟩ := written_cons.mp hwritten
  obtain ⟨curly, _, rfl, hcurly, hwritten⟩ := written_cons.mp hwritten
  obtain ⟨front, close, rfl, hfront, hclose⟩ := written_concat.mp hwritten
  rw [Mark.matches_symbol] at hcurly hclose
  simp only [List.length_cons, List.length_append] at hfuel
  have hsequence := sequence_iff.mpr ⟨hfront, Function.all_iff.mp ⟨hcanonical, hdepth⟩⟩
  have hlength := hsequence.length_le fun hmethod => Function.length_pos_of_written hmethod.1
  rw [classDefinition]
  refine (passes_expectName (.cons hname .nil)).bind fun _ => ?_
  refine passes_expectSymbol hcurly ?_
  rw [List.append_eq, List.append_assoc]
  refine (passes_collect (fun _ => True) ?_ (fun _ => trivial) ?_ ?_ trivial
    (hsequence.bounded (Nat.le_refl _)) (by omega) []).bind fun _ => ?_
  · intro method piece rest previous hmethod _
    exact passes_function hscope "method" hmethod.1.1 hmethod.1.2 (by omega)
  · intro method piece rest previous hmethod
    exact atBlockEnd_of_opensStmt (hmethod.1.1.function_opensStmt rest last)
  · intro previous
    exact atBlockEnd_of_closeCurly hclose
  · exact passes_expectSymbol hclose (passes_pure _)

theorem passes_declaration (hscope : scope.Complete) (h : ReadsDeclaration room stmt tokens)
    (hnext : stmt.isOpen → ahead rest last ≠ .keyword .kwElse)
    (hfuel : 4 * tokens.length ≤ scope.fuel) :
    (declaration scope room).Passes ⟨tokens ++ rest, last, previous⟩ stmt rest := by
  rw [declaration]
  refine passes_recovering ?_
  have hwritten := h.1
  by_cases hdeclares : stmt.isDeclaration = true
  · cases stmt with
    | classDef name methods =>
        rw [Stmt.marks] at hwritten
        obtain ⟨word, tokens, rfl, hword, -⟩ := written_cons.mp hwritten
        rw [Mark.matches_keyword] at hword
        exact passes_eat hword (by decide) (passes_classDefinition hscope h hfuel)
    | funDef function =>
        rw [Stmt.marks] at hwritten
        obtain ⟨word, tokens, rfl, hword, hfunction⟩ := written_cons.mp hwritten
        rw [Mark.matches_keyword] at hword
        rw [List.length_cons] at hfuel
        refine passes_eat_other hword (by decide) (passes_eat hword (by decide) ?_)
        exact (passes_function hscope "function" hfunction ⟨h.2.1, h.2.2.2⟩ (by omega)).map
          Stmt.funDef
    | varDef name initializer =>
        obtain ⟨word, tokens, rfl, hword⟩ : ∃ word tail, tokens = word :: tail ∧
            word.value = .keyword .kwVar := by
          cases initializer <;> rw [Stmt.marks] at hwritten <;>
            obtain ⟨word, tail, rfl, hword, -⟩ := written_cons.mp hwritten <;>
            exact ⟨word, tail, rfl, hword.1⟩
        refine passes_eat_other hword (by decide) (passes_eat_other hword (by decide) ?_)
        exact passes_eat hword (by decide) (passes_varDefinition hscope h hfuel)
    | _ => cases hdeclares
  · obtain ⟨-, hcanonical, hlooks, hdepth⟩ := h
    have hdeclares : stmt.isDeclaration = false := Bool.eq_false_iff.mpr hdeclares
    -- A statement begins with no word that begins a declaration.
    have hne : ∀ {token : Token}, token.opensDeclaration = true →
        (Cursor.peek ⟨tokens ++ rest, last, previous⟩).value ≠ token := by
      obtain ⟨mark, marks, hmarks, -, hopens⟩ := stmt.exists_first
      rw [hmarks] at hwritten
      rintro _ htoken rfl
      have hpeek : (ahead (tokens ++ rest) last).opensDeclaration = true := htoken
      rw [hwritten.ahead_eq, hopens hdeclares hlooks] at hpeek
      cases hpeek
    refine passes_eat_of_ne (hne rfl) (passes_eat_of_ne (hne rfl) (passes_eat_of_ne (hne rfl) ?_))
    have hstatement : ReadsStatement room stmt tokens ⟨rest, last, last⟩ :=
      ⟨hwritten, hcanonical, hdepth, hdeclares, hnext⟩
    exact hscope.statement hstatement hfuel

/-! ## The knot -/

theorem scopeWith_complete (fuel : Nat) : (scopeWith fuel).Complete := by
  induction fuel with
  | zero =>
      -- Without fuel there is nothing to show, as nothing is written as no tokens.
      rw [scopeWith_zero]
      refine ⟨?_, ?_, ?_, ?_⟩
      · intro room stmt tokens rest last previous h hnext hfuel
        exact absurd hfuel (Nat.not_lt_zero _)
      · intro room stmt tokens rest last previous after h hfuel
        have hpos := Stmt.length_pos_of_written h.written
        have hfuel : 4 * tokens.length ≤ 0 := hfuel
        omega
      · intro room expr tokens rest last previous h hends hfuel
        have hpos := Expr.length_pos_of_written h.1
        have hfuel : 4 * tokens.length ≤ 1 := hfuel
        omega
      · intro room expr tokens rest last previous h hnext hfuel
        have hpos := Expr.length_pos_of_written h.1
        have hfuel : 4 * tokens.length ≤ 2 := hfuel
        omega
  | succ fuel ih =>
      rw [scopeWith_succ]
      refine ⟨?_, ?_, ?_, ?_⟩
      · intro room stmt tokens rest last previous h hnext hfuel
        exact passes_declaration ih h hnext (Nat.le_of_lt_succ hfuel)
      · intro room stmt tokens rest last previous after h hfuel
        have hdepth := Stmt.depth_pos h.not_declaration
        obtain ⟨room, rfl⟩ := Nat.exists_eq_succ_of_ne_zero
          (Nat.ne_zero_of_lt (hdepth.trans_le h.depth_le))
        exact passes_nested (passes_statement ih h hfuel)
      · rintro (_ | room) expr tokens rest last previous ⟨hwritten, hcanonical, hdepth⟩ hends hfuel
        · exact absurd hdepth (Nat.not_succ_le_zero _)
        · exact passes_nested (passes_assignment ih ⟨hwritten, hcanonical, Nat.zero_le _,
            Nat.le_of_succ_le_succ hdepth⟩ hends hfuel)
      · intro room expr tokens rest last previous h hnext hfuel
        exact passes_operand ih h hnext hfuel

theorem passes_program {tree : List Stmt} (htree : IsCanonical tree)
    (h : Written (Stmt.marksOf tree) tokens) (hlast : last.value = .endOfInput) {fuel : Nat}
    (hfuel : 4 * tokens.length < fuel) :
    (program fuel).Passes ⟨tokens ++ [last], last, previous⟩ tree [last] := by
  rw [Stmt.marksOf_eq] at h
  have hsequence := sequence_iff.mpr ⟨h, Stmt.all_iff.mp htree⟩
  have hlength := hsequence.length_le fun hstmt => Stmt.length_pos_of_written hstmt.1
  have hend : ahead [last] last = .endOfInput := hlast
  rw [program]
  refine passes_collect (· ≠ .keyword .kwElse) ?_
    (fun hstmt => Token.ne_else_of_opensStmt (hstmt.1.1.opensStmt _ last)) ?_ ?_ ?_
    (hsequence.bounded (Nat.le_refl _)) (by omega) []
  · intro stmt piece rest previous hstmt hnext
    exact (scopeWith_complete fuel).declaration hstmt.1 (fun _ => hnext)
      ((Nat.mul_le_mul_left 4 hstmt.2).trans_lt hfuel)
  · intro stmt piece rest previous hstmt hstop
    have hopens : (Cursor.peek ⟨piece ++ rest, last, previous⟩).value.opensStmt = true :=
      hstmt.1.1.opensStmt rest last
    apply atBlockEnd_of_opensStmt hopens
    rw [atBlockEnd, hstop, Bool.or_true]
  · intro previous
    exact decide_eq_true hlast
  · rw [hend]
    decide

end Stacklet.Grammar
