import Stacklet.Proofs.Tree.Partings

/-! # Reading pieces

What a reader comes to on given tokens, or which troubles it may be in instead. Expressions and
statements are read as pieces: what is read of one at some place is read of it wherever there is as
much room for nesting. Blocks of two pieces and loops are read piece by piece.
-/

namespace Stacklet

/-! ## Reading on -/

namespace Reader

variable {α β : Type} {allows : Trouble → Prop} {cursor : Cursor} {good : α → Cursor → Prop}
  {result : β → Cursor → Prop} {word : List Token}

theorem comes_pure {value : α} (h : good value cursor) :
    (pure value : Reader α).Comes allows cursor good :=
  .inl ⟨value, cursor, rfl, h⟩

theorem Comes.imp {read : Reader α} {better : α → Cursor → Prop} (h : read.Comes allows cursor good)
    (himp : ∀ value reached, good value reached → better value reached) :
    read.Comes allows cursor better := by
  rcases h with ⟨value, reached, hdone, hgood⟩ | htrouble
  · exact .inl ⟨value, reached, hdone, himp value reached hgood⟩
  · exact .inr htrouble

theorem Comes.bind {first : Reader α} {next : α → Reader β} (h : first.Comes allows cursor good)
    (hnext : ∀ value reached, good value reached → (next value).Comes allows reached result) :
    (first >>= next).Comes allows cursor result := by
  rcases h with ⟨value, reached, hdone, hgood⟩ | ⟨trouble, htrouble, hallows⟩
  · unfold Comes
    rw [bind_of_done hdone]
    exact hnext value reached hgood
  · have hstuck : Stuck first cursor := by
      unfold Stuck
      rw [htrouble]
      intro hnone
      cases hnone
    exact .inr ⟨trouble, (trouble?_bind hstuck).trans htrouble, hallows⟩

theorem Comes.map {read : Reader α} {f : α → β} (h : read.Comes allows cursor good)
    (hgood : ∀ value reached, good value reached → result (f value) reached) :
    (f <$> read).Comes allows cursor result :=
  h.bind fun value reached hvalue => comes_pure (hgood value reached hvalue)

theorem Comes.recovering {read : Reader α} (h : read.Comes allows cursor good) :
    (recovering read).Comes allows cursor good := by
  rcases h with ⟨value, reached, hdone, hgood⟩ | ⟨trouble, htrouble, hallows⟩
  · refine .inl ⟨value, reached, ?_, hgood⟩
    rw [Reader.recovering, hdone]
  · exact .inr ⟨trouble, (trouble?_recovering read).trans htrouble, hallows⟩

theorem comes_eat {token : Token} {next : Bool → Reader β} (hcursor : cursor.Faces (token :: word))
    (hne : token ≠ .endOfInput)
    (h : ∀ reached, reached.Faces word → (next true).Comes allows reached result) :
    (eat token >>= next).Comes allows cursor result := by
  have hpeek : cursor.peek.value = token := hcursor.peek
  unfold Comes
  rw [bind_of_done (eat_of_eq hpeek)]
  exact h _ (hcursor.advance hne)

theorem comes_eat_other {token : Token} {next : Bool → Reader β} (hne : cursor.peek.value ≠ token)
    (h : (next false).Comes allows cursor result) :
    (eat token >>= next).Comes allows cursor result := by
  unfold Comes
  rw [bind_of_done (eat_of_ne hne)]
  exact h

theorem comes_isAhead {token : Token} {next : Bool → Reader β}
    (h : (next (cursor.peek.value = token)).Comes allows cursor result) :
    (isAhead token >>= next).Comes allows cursor result :=
  h

theorem comes_expectSymbol {symbol : Symbol} {expected : String}
    {next : Located Token → Reader β} (hcursor : cursor.Faces (.symbol symbol :: word))
    (h : ∀ token reached, reached.Faces word → (next token).Comes allows reached result) :
    (expectSymbol symbol expected >>= next).Comes allows cursor result := by
  have hdone : expectSymbol symbol expected cursor = .done cursor.peek cursor.advance :=
    if_pos hcursor.peek
  unfold Comes
  rw [bind_of_done hdone]
  exact h _ _ (hcursor.advance nofun)

theorem comes_expectName {text expected : String} (hcursor : cursor.Faces (.name text :: word)) :
    (expectName expected).Comes allows cursor fun name reached =>
      reached.Faces word ∧ name.value = text := by
  refine .inl ⟨⟨text, cursor.peek.span⟩, cursor.advance, ?_, hcursor.advance nofun, rfl⟩
  have hpeek : cursor.peek.value = .name text := hcursor.peek
  simp only [expectName, hpeek]

end Reader

namespace Grammar

open Reader

variable {allows : Trouble → Prop} {cursor : Cursor} {fuel room : Nat} {word rest : List Token}

theorem comes_statementWith {good : Stmt → Cursor → Prop} (hunfinished : allows .unfinished)
    (hdeep : room = 0 → allows (.failed .tooDeep))
    (h : ∀ {less inner}, room = inner + 1 →
      (statement (scopeWith less) inner).Comes allows cursor good) :
    (statementWith fuel room).Comes allows cursor good := by
  cases fuel with
  | zero => exact .inr ⟨.unfinished, by rw [statementWith]; rfl, hunfinished⟩
  | succ fuel =>
      rw [statementWith]
      cases room with
      | zero => exact .inr ⟨.failed .tooDeep, rfl, hdeep rfl⟩
      | succ inner => exact h rfl

theorem comes_declarationWith {good : Stmt → Cursor → Prop} (hunfinished : allows .unfinished)
    (h : ∀ {less}, (declaration (scopeWith less) room).Comes allows cursor good) :
    (declarationWith fuel room).Comes allows cursor good := by
  cases fuel with
  | zero => exact .inr ⟨.unfinished, by rw [declarationWith]; rfl, hunfinished⟩
  | succ fuel =>
      rw [declarationWith]
      exact h

/-! ## First tokens of pieces -/

theorem opens_of_isPiece {α : Type} {read : (fuel room : Nat) → Reader α} {opens : Token → Bool}
    (hstuck : ∀ {fuel room cursor}, opens cursor.peek.value = false →
      Stuck (read fuel room) cursor)
    (h : IsPiece read word) : opens (word.headD .endOfInput) = true := by
  obtain ⟨fuel, room, cursor, value, reached, hcursor, hdone, -⟩ := h
  by_contra hopens
  have hpeek := Bool.eq_false_of_not_eq_true hopens
  rw [← hcursor.peek] at hpeek
  exact (hstuck hpeek).not_done hdone

theorem opensExpr_of_isPiece (h : IsPiece expressionWith word) :
    (word.headD .endOfInput).opensExpr = true :=
  opens_of_isPiece (scopeWith_blocked _).expression h

theorem opensStatement_of_isPiece (h : IsPiece statementWith word) :
    (word.headD .endOfInput).opensStatement = true :=
  opens_of_isPiece (scopeWith_blocked _).statement h

/-- A word that begins in some way begins so with anything behind it. -/
theorem opens_append {opens : Token → Bool} (hend : opens .endOfInput = false)
    (h : opens (word.headD .endOfInput) = true) :
    opens ((word ++ rest).headD .endOfInput) = true := by
  cases word with
  | nil =>
      rw [List.headD_nil, hend] at h
      cases h
  | cons token word => exact h

theorem peek_of_opens {opens : Token → Bool} (hend : opens .endOfInput = false)
    (hcursor : cursor.Faces (word ++ rest)) (h : opens (word.headD .endOfInput) = true) :
    opens cursor.peek.value = true := by
  rw [hcursor.peek]
  exact opens_append hend h

/-- What does not begin like a function has another token ahead. -/
theorem peek_ne_fun {opens : Token → Bool} (hend : opens .endOfInput = false)
    (hcursor : cursor.Faces (word ++ rest)) (h : opens (word.headD .endOfInput) = true)
    (hfun : word.head? ≠ some (.keyword .kwFun)) : cursor.peek.value ≠ .keyword .kwFun := by
  cases word with
  | nil =>
      rw [List.headD_nil, hend] at h
      cases h
  | cons token word =>
      rw [hcursor.peek]
      exact fun heq => hfun (congrArg some heq)

theorem opensDeclaration_of_opensStatement {token : Token} (h : token.opensStatement = true)
    (hfun : token ≠ .keyword .kwFun) : token.opensDeclaration = false := by
  unfold Token.opensDeclaration
  split
  · cases h
  · exact absurd rfl hfun
  · cases h
  · rfl

theorem opensStatement_of_opensExpr {token : Token} (h : token.opensExpr = true) :
    token.opensStatement = true := by
  by_contra hstatement
  have hexpr := opensExpr_of_not_opensStatement (Bool.eq_false_of_not_eq_true hstatement)
  exact Token.ne_of_class h hexpr rfl

/-! ## Declarations and statements -/

variable {good : Expr → Prop}

theorem comes_expressionStatement
    (hexpr : (expressionWith fuel room).Comes allows cursor fun expr reached =>
      reached.Faces (.symbol .semicolon :: rest) ∧ good expr) :
    (expressionStatement (scopeWith fuel) room).Comes allows cursor fun stmt reached =>
      reached.Faces rest ∧ ∃ expr, stmt = .expression expr ∧ good expr := by
  refine Comes.bind hexpr fun expr reached ⟨hreached, hgood⟩ => ?_
  refine comes_expectSymbol hreached fun _ after hafter => comes_pure ?_
  exact ⟨hafter, expr, rfl, hgood⟩

theorem comes_declaration_statement {good : Stmt → Cursor → Prop} (hunfinished : allows .unfinished)
    (hpeek : cursor.peek.value.opensDeclaration = false)
    (h : ∀ {less}, (statementWith less room).Comes allows cursor good) :
    (declarationWith fuel room).Comes allows cursor good := by
  have hne : ∀ {token : Token}, token.opensDeclaration = true → cursor.peek.value ≠ token :=
    fun htoken => peek_ne_of_not hpeek htoken
  refine comes_declarationWith hunfinished (Comes.recovering ?_)
  refine comes_eat_other (hne rfl) ?_
  refine comes_eat_other (hne rfl) ?_
  refine comes_eat_other (hne rfl) ?_
  exact h

theorem comes_statement_expression {good : Stmt → Cursor → Prop}
    (hpeek : cursor.peek.value.opensExpr = true)
    (h : (expressionStatement (scopeWith fuel) room).Comes allows cursor good) :
    (statement (scopeWith fuel) room).Comes allows cursor good := by
  refine comes_eat_other (Token.ne_of_class hpeek rfl) ?_
  refine comes_eat_other (Token.ne_of_class hpeek rfl) ?_
  refine comes_eat_other (Token.ne_of_class hpeek rfl) ?_
  refine comes_eat_other (Token.ne_of_class hpeek rfl) ?_
  refine comes_eat_other (Token.ne_of_class hpeek rfl) ?_
  refine comes_eat_other (Token.ne_of_class hpeek rfl) ?_
  exact h

/-- A full expression, wherever it stands. -/
def CarriesExpr (room : Nat) (word : List Token) (tree : Expr) : Prop :=
  Carries expressionWith (·.endsExpr = true) Expr.unplaced room word tree

/-- A statement, wherever it stands. -/
def CarriesStmt (room : Nat) (word : List Token) (tree : Stmt) : Prop :=
  Carries statementWith (· ≠ .keyword .kwElse) Stmt.unplaced room word tree

theorem CarriesStmt.room_pos {tree : Stmt} (h : CarriesStmt room word tree) : 0 < room := by
  rw [Nat.pos_iff_ne_zero]
  rintro rfl
  have hfaces : (Cursor.before word).Faces (word ++ []) := by
    rw [List.append_nil]
    exact Cursor.faces_before word
  rcases @h 1 0 _ [] (Nat.le_refl 0) hfaces nofun with
    ⟨value, reached, hdone, -⟩ | ⟨_, htrouble, rfl⟩
  · rw [statementWith] at hdone
    cases hdone
  · rw [statementWith] at htrouble
    cases htrouble

/-- An expression that is read here is read as the same everywhere. -/
theorem comes_carriesExpr {less : Nat} (hword : IsPiece expressionWith word) (hless : less ≤ room)
    (hcursor : cursor.Faces (word ++ rest)) (hnext : (rest.headD .endOfInput).endsExpr = true) :
    (expressionWith fuel less).Comes (fun _ => True) cursor fun expr reached =>
      reached.Faces rest ∧ CarriesExpr room word expr.unplaced :=
  readsPieces_expression.comes hword hless hcursor hnext

theorem comes_carriesStmt {less : Nat} (hword : IsPiece statementWith word) (hless : less ≤ room)
    (hcursor : cursor.Faces (word ++ rest)) (hnext : rest.headD .endOfInput ≠ .keyword .kwElse) :
    (statementWith fuel less).Comes (fun _ => True) cursor fun stmt reached =>
      reached.Faces rest ∧ CarriesStmt room word stmt.unplaced :=
  readsPieces_statement.comes hword hless hcursor hnext

/-- What is read of a word in the place of a declaration, with room for nesting up to a bound. -/
def ReadsItem (bound : Nat) (word rest : List Token) (good : Stmt → Prop) : Prop :=
  ∀ {fuel less cursor}, less ≤ bound → cursor.Faces (word ++ rest) →
    (declarationWith fuel less).Comes (fun _ => True) cursor fun stmt reached =>
      reached.Faces rest ∧ good stmt

theorem readsItem_expression (hword : IsPiece expressionWith word)
    (hfun : word.head? ≠ some (.keyword .kwFun)) :
    ReadsItem room (word ++ [.symbol .semicolon]) rest fun stmt =>
      ∃ expr, stmt = .expression expr ∧ CarriesExpr room word expr.unplaced := by
  intro fuel less cursor hless hcursor
  rw [List.append_assoc] at hcursor
  have hopens := opensExpr_of_isPiece hword
  have hpeek := peek_of_opens rfl hcursor hopens
  have hdeclares := Token.opensDeclaration_of_opensExpr hpeek (peek_ne_fun rfl hcursor hopens hfun)
  refine comes_declaration_statement trivial hdeclares ?_
  refine comes_statementWith trivial (fun _ => trivial) ?_
  rintro fuel inner rfl
  refine comes_statement_expression hpeek (comes_expressionStatement ?_)
  exact comes_carriesExpr hword (Nat.le_of_succ_le hless) hcursor rfl

theorem readsItem_statement (hword : IsPiece statementWith word)
    (hfun : word.head? ≠ some (.keyword .kwFun))
    (hnext : rest.headD .endOfInput ≠ .keyword .kwElse) :
    ReadsItem room word rest fun stmt => CarriesStmt room word stmt.unplaced := by
  intro fuel less cursor hless hcursor
  have hopens := opensStatement_of_isPiece hword
  have hpeek := peek_of_opens rfl hcursor hopens
  have hdeclares := opensDeclaration_of_opensStatement hpeek (peek_ne_fun rfl hcursor hopens hfun)
  refine comes_declaration_statement trivial hdeclares ?_
  exact comes_carriesStmt hword hless hcursor hnext

/-! ## Blocks -/

theorem comes_collect_item {α : Type} {stop : Cursor → Bool} {item : Reader α} {read : List α}
    {good : α → Cursor → Prop} {result : List α → Cursor → Prop} (hunfinished : allows .unfinished)
    (hstop : ¬ stop cursor = true) (hitem : item.Comes allows cursor good)
    (hnext : ∀ {less value reached}, good value reached →
      (collect stop item less (value :: read)).Comes allows reached result) :
    (collect stop item fuel read).Comes allows cursor result := by
  cases fuel with
  | zero => exact .inr ⟨.unfinished, rfl, hunfinished⟩
  | succ fuel =>
      unfold Comes
      rw [collect_of_not_stop item fuel read hstop]
      exact hitem.bind fun _ _ hvalue => hnext hvalue

theorem comes_collect_stop {α : Type} {stop : Cursor → Bool} {item : Reader α} {read : List α}
    {result : List α → Cursor → Prop} (hunfinished : allows .unfinished)
    (hstop : stop cursor = true) (h : result read.reverse cursor) :
    (collect stop item fuel read).Comes allows cursor result := by
  cases fuel with
  | zero => exact .inr ⟨.unfinished, rfl, hunfinished⟩
  | succ fuel => exact .inl ⟨_, _, collect_of_stop item fuel read hstop, h⟩

theorem not_atBlockEnd {cursor : Cursor}
    (h : Category.opens .declaration cursor.peek.value = true) : ¬ atBlockEnd cursor = true := by
  intro hend
  simp only [atBlockEnd, Cursor.atEnd, Bool.or_eq_true, decide_eq_true_eq] at hend
  rcases hend with hpeek | hpeek <;> rw [hpeek] at h <;> cases h

section Pair

variable {less : Nat} {first second : List Token} {goodFirst goodSecond : Stmt → Prop}

/-- A block of two declarations, behind its brace. -/
theorem comes_block (hless : less ≤ room)
    (hcursor : cursor.Faces (first ++ (second ++ .symbol .closeCurly :: rest)))
    (hopensFirst : Category.opens .declaration (first.headD .endOfInput) = true)
    (hopensSecond : Category.opens .declaration (second.headD .endOfInput) = true)
    (hfirst : ReadsItem room first (second ++ .symbol .closeCurly :: rest) goodFirst)
    (hsecond : ReadsItem room second (.symbol .closeCurly :: rest) goodSecond) :
    (block (scopeWith fuel) less).Comes (fun _ => True) cursor fun body reached =>
      reached.Faces rest ∧ ∃ front back, body = [front, back] ∧ goodFirst front ∧
        goodSecond back := by
  have hitems : (collect atBlockEnd (declarationWith fuel less) fuel []).Comes (fun _ => True)
      cursor fun body reached => reached.Faces (.symbol .closeCurly :: rest) ∧
        ∃ front back, body = [front, back] ∧ goodFirst front ∧ goodSecond back := by
    have hstop := not_atBlockEnd (peek_of_opens rfl hcursor hopensFirst)
    refine comes_collect_item trivial hstop (hfirst hless hcursor) ?_
    rintro fuel front reached ⟨hreached, hfront⟩
    have hstop := not_atBlockEnd (peek_of_opens rfl hreached hopensSecond)
    refine comes_collect_item trivial hstop (hsecond hless hreached) ?_
    rintro fuel back reached ⟨hreached, hback⟩
    refine comes_collect_stop trivial ?_ ⟨hreached, front, back, rfl, hfront, hback⟩
    simp only [atBlockEnd, hreached.peek, List.headD_cons, decide_true, Bool.true_or]
  refine hitems.bind ?_
  rintro body reached ⟨hreached, hpair⟩
  exact comes_expectSymbol hreached fun _ after hafter => comes_pure ⟨hafter, hpair⟩

theorem comes_pair (hless : less ≤ room + 1)
    (hcursor : cursor.Faces (.symbol .openCurly ::
      (first ++ (second ++ .symbol .closeCurly :: rest))))
    (hopensFirst : Category.opens .declaration (first.headD .endOfInput) = true)
    (hopensSecond : Category.opens .declaration (second.headD .endOfInput) = true)
    (hfirst : ReadsItem room first (second ++ .symbol .closeCurly :: rest) goodFirst)
    (hsecond : ReadsItem room second (.symbol .closeCurly :: rest) goodSecond) :
    (statementWith fuel less).Comes (fun _ => True) cursor fun stmt reached =>
      reached.Faces rest ∧ ∃ front back, stmt = .block [front, back] ∧ goodFirst front ∧
        goodSecond back := by
  refine comes_statementWith trivial (fun _ => trivial) ?_
  rintro fuel inner rfl
  refine comes_eat_other (hcursor.peek ▸ nofun) ?_
  refine comes_eat_other (hcursor.peek ▸ nofun) ?_
  refine comes_eat_other (hcursor.peek ▸ nofun) ?_
  refine comes_eat_other (hcursor.peek ▸ nofun) ?_
  refine comes_eat_other (hcursor.peek ▸ nofun) ?_
  refine comes_eat hcursor nofun fun reached hreached => ?_
  have hinner := Nat.le_of_succ_le_succ hless
  refine (comes_block hinner hreached hopensFirst hopensSecond hfirst hsecond).map ?_
  rintro _ after ⟨hafter, front, back, rfl, hgood⟩
  exact ⟨hafter, front, back, rfl, hgood⟩

end Pair

/-- A `while`, with its condition and its body. -/
theorem comes_while {less : Nat} {behind : List Token} {good : Stmt → Prop}
    (hless : less ≤ room + 1) (hword : IsPiece expressionWith word)
    (hcursor : cursor.Faces (.keyword .kwWhile :: .symbol .openParen ::
      (word ++ .symbol .closeParen :: rest)))
    (hbody : ∀ {fuel less reached}, less ≤ room → reached.Faces rest →
      (statementWith fuel less).Comes (fun _ => True) reached fun stmt after =>
        after.Faces behind ∧ good stmt) :
    (statementWith fuel less).Comes (fun _ => True) cursor fun stmt reached =>
      reached.Faces behind ∧ ∃ condition body, stmt = .whileLoop condition body ∧
        CarriesExpr room word condition.unplaced ∧ good body := by
  refine comes_statementWith trivial (fun _ => trivial) ?_
  rintro fuel inner rfl
  have hinner := Nat.le_of_succ_le_succ hless
  refine comes_eat_other (hcursor.peek ▸ nofun) ?_
  refine comes_eat_other (hcursor.peek ▸ nofun) ?_
  refine comes_eat_other (hcursor.peek ▸ nofun) ?_
  refine comes_eat_other (hcursor.peek ▸ nofun) ?_
  refine comes_eat hcursor nofun fun reached hreached => ?_
  refine comes_expectSymbol hreached fun _ reached hreached => ?_
  refine (comes_carriesExpr hword hinner hreached rfl).bind ?_
  rintro condition reached ⟨hreached, hcondition⟩
  refine comes_expectSymbol hreached fun _ reached hreached => ?_
  refine (hbody hinner hreached).bind ?_
  rintro body after ⟨hafter, hgood⟩
  exact comes_pure ⟨hafter, condition, body, rfl, hcondition, hgood⟩

/-! ## Constants -/

/-- A run on a constant, alone or before a semicolon. -/
theorem expressionWith_literal (value : Literal) (room : Nat) {tail : List Token}
    (htail : tail = [] ∨ tail = [.symbol .semicolon]) :
    ∃ reached, reached.Faces tail ∧ expressionWith 3 (room + 1) (.before (value.token :: tail)) =
      .done (.literal value (some ⟨0, 0, 0⟩)) reached := by
  let reached : Cursor := { Cursor.before tail with previous := ⟨value.token, ⟨0, 0, 0⟩⟩ }
  refine ⟨reached, ⟨(Cursor.faces_before tail).rest_eq, rfl⟩, ?_⟩
  rw [expressionWith]
  show assignment (scopeWith 2) room _ = _
  rw [scopeWith_succ]
  cases value with
  | bool value => cases value <;> rcases htail with rfl | rfl <;> rfl
  | _ => rcases htail with rfl | rfl <;> rfl

theorem isPiece_literal (value : Literal) : IsPiece expressionWith [value.token] := by
  obtain ⟨reached, hreached, hdone⟩ := expressionWith_literal value 0 (.inl rfl)
  exact ⟨3, 1, _, _, reached, Cursor.faces_before _, hdone, hreached⟩

/-- A constant is read to itself wherever there is room for an expression. -/
theorem carriesExpr_literal (value : Literal) (room : Nat) :
    CarriesExpr (room + 1) [value.token] (.literal value none) := by
  obtain ⟨reached, -, hdone⟩ := expressionWith_literal value room (.inr rfl)
  have hstart := Cursor.faces_before ([value.token] ++ [.symbol .semicolon])
  rcases comes_carriesExpr (isPiece_literal value) (Nat.le_refl (room + 1)) hstart rfl with
    ⟨expr, after, hexpr, -, hcarries⟩ | ⟨trouble, htrouble, -⟩
  · cases hdone.symm.trans hexpr
    rwa [Expr.unplaced] at hcarries
  · cases (congrArg Outcome.trouble? hdone).symm.trans htrouble

theorem eq_of_carriesExpr_literal {value : Literal} {tree : Expr}
    (h : CarriesExpr room [value.token] tree) : tree = .literal value none := by
  obtain ⟨reached, -, hdone⟩ := expressionWith_literal value room (.inr rfl)
  have hstart := Cursor.faces_before ([value.token] ++ [.symbol .semicolon])
  rcases h (Nat.le_succ room) hstart rfl with
    ⟨expr, after, hexpr, -, htree⟩ | ⟨trouble, htrouble, -⟩
  · cases hdone.symm.trans hexpr
    rw [← htree, Expr.unplaced]
  · cases (congrArg Outcome.trouble? hdone).symm.trans htrouble

/-- A constant is printed wherever there is room for a statement and an expression. -/
theorem comes_print {value : Literal} (hroom : 1 < room)
    (hcursor : cursor.Faces (.keyword .kwPrint :: value.token :: .symbol .semicolon :: rest)) :
    (statementWith fuel room).Comes (· = .unfinished) cursor fun _ reached =>
      reached.Faces rest := by
  refine comes_statementWith rfl (fun hzero => absurd (hzero ▸ hroom) (Nat.not_lt_zero 1)) ?_
  rintro fuel inner rfl
  obtain ⟨less, rfl⟩ := Nat.exists_eq_succ_of_ne_zero (Nat.ne_of_gt (Nat.lt_of_succ_lt_succ hroom))
  refine comes_eat_other (hcursor.peek ▸ nofun) ?_
  refine comes_eat_other (hcursor.peek ▸ nofun) ?_
  refine comes_eat hcursor nofun fun reached hreached => ?_
  refine Comes.bind (carriesExpr_literal value less (Nat.le_refl (less + 1)) hreached rfl) ?_
  rintro expr after ⟨hafter, -⟩
  exact comes_expectSymbol hafter fun _ last hlast => comes_pure hlast

end Grammar

end Stacklet
