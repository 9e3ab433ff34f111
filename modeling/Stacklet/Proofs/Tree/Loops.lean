import Stacklet.Proofs.Tree.Layout
import Stacklet.Proofs.Tree.Pieces

/-! # Loops written with `for`

A loop can be written with `while`, in blocks with its initializer and its increment, and with
`for`. Both are made of the same pieces, in another order and at other depths. What the first reads
of its pieces is read of them in the second as well, which leaves more room for nesting to each.
-/

namespace Stacklet

namespace Grammar

open Reader

variable {allows : Trouble → Prop} {cursor : Cursor} {fuel room : Nat} {word rest : List Token}

/-! ## Initializers -/

/-- What a loop written with `for` begins with: an expression, or a variable that may have a
value. -/
inductive Initializer where
  | expression (word : List Token)
  | var (name : String) (value : Option (List Token))

namespace Initializer

/-- The tokens of a variable's definition, behind its keyword. -/
def definition (name : String) : (value : Option (List Token)) → List Token
  | none => [.name name, .symbol .semicolon]
  | some word => .name name :: .symbol .assign :: (word ++ [.symbol .semicolon])

/-- The tokens of an initializer, its semicolon included. -/
def tokens : Initializer → List Token
  | expression word => word ++ [.symbol .semicolon]
  | var name value => .keyword .kwVar :: definition name value

/-- The tokens of the expression within an initializer. -/
def word? : Initializer → Option (List Token)
  | expression word => some word
  | var _ value => value

/-- The statements that an initializer is read to, with a good expression within them. -/
inductive Yields (good : Expr → Prop) : Initializer → Stmt → Prop
  | expression {word : List Token} {expr : Expr} (h : good expr) :
      Yields good (.expression word) (.expression expr)
  | var {text : String} {name : Located String} (hname : name.value = text) :
      Yields good (.var text none) (.varDef name none)
  | assigned {text : String} {name : Located String} {word : List Token} {expr : Expr}
      (hname : name.value = text) (h : good expr) :
      Yields good (.var text (some word)) (.varDef name (some expr))

/-- An initializer is read to the same statement whenever its expression is read to the same. -/
theorem Yields.unplaced_eq {left right : Expr → Prop} {initializer : Initializer}
    {stmt other : Stmt} (h : initializer.Yields left stmt) (hother : initializer.Yields right other)
    (hsame : ∀ expr same, left expr → right same → expr.unplaced = same.unplaced) :
    stmt.unplaced = other.unplaced := by
  cases h with
  | expression hexpr =>
      cases hother with
      | expression hsameExpr => rw [Stmt.unplaced, Stmt.unplaced, hsame _ _ hexpr hsameExpr]
  | var hname =>
      cases hother with
      | var hsameName =>
          rw [Stmt.unplaced, Stmt.unplaced, Located.unplaced, Located.unplaced, hname, hsameName]
  | assigned hname hexpr =>
      cases hother with
      | assigned hsameName hsameExpr =>
          rw [Stmt.unplaced, Stmt.unplaced, Located.unplaced, Located.unplaced, hname, hsameName,
            hsame _ _ hexpr hsameExpr]

/-- The expression within an initializer, if there is one. -/
theorem Yields.exists_expr {good : Expr → Prop} {initializer : Initializer} {stmt : Stmt}
    (h : initializer.Yields good stmt) :
    ∃ expr, initializer.Yields (· = expr) stmt ∧ ∀ word ∈ initializer.word?, good expr := by
  cases h with
  | @expression word expr hexpr => exact ⟨expr, .expression rfl, fun _ _ => hexpr⟩
  | var hname => exact ⟨.literal .nil none, .var hname, nofun⟩
  | @assigned text name word expr hname hexpr => exact ⟨expr, .assigned hname rfl, fun _ _ => hexpr⟩

end Initializer

variable {good : Expr → Prop} {initializer : Initializer}

/-- What is read of an expression, wherever it stands, with some room for nesting. -/
def ReadsWord (allows : Trouble → Prop) (room : Nat) (word : List Token) (good : Expr → Prop) :
    Prop :=
  ∀ {fuel cursor rest}, cursor.Faces (word ++ rest) → (rest.headD .endOfInput).endsExpr = true →
    (expressionWith fuel room).Comes allows cursor fun expr reached =>
      reached.Faces rest ∧ good expr

theorem comes_varDefinition {name : String} {value : Option (List Token)}
    (hcursor : cursor.Faces (Initializer.definition name value ++ rest))
    (hexpr : ∀ word ∈ value, ReadsWord allows room word good) :
    (varDefinition (scopeWith fuel) room).Comes allows cursor fun stmt reached =>
      reached.Faces rest ∧ (Initializer.var name value).Yields good stmt := by
  cases value with
  | none =>
      refine (comes_expectName hcursor).bind fun placed reached ⟨hreached, hname⟩ => ?_
      refine comes_eat_other (hreached.peek ▸ nofun) ?_
      refine comes_expectSymbol hreached fun _ after hafter => comes_pure ?_
      exact ⟨hafter, .var hname⟩
  | some word =>
      simp only [Initializer.definition, List.cons_append, List.append_assoc,
        List.nil_append] at hcursor
      refine (comes_expectName hcursor).bind fun placed reached ⟨hreached, hname⟩ => ?_
      refine comes_eat hreached nofun fun reached hreached => ?_
      have hvalue : (some <$> expressionWith fuel room).Comes allows reached fun value after =>
          after.Faces (.symbol .semicolon :: rest) ∧ ∃ expr, value = some expr ∧ good expr :=
        Comes.map (hexpr word rfl hreached rfl) fun expr after ⟨hafter, hgood⟩ =>
          ⟨hafter, expr, rfl, hgood⟩
      refine hvalue.bind fun value after ⟨hafter, expr, hsome, hgood⟩ => ?_
      subst hsome
      refine comes_expectSymbol hafter fun _ last hlast => comes_pure ?_
      exact ⟨hlast, .assigned hname hgood⟩

theorem comes_forInitializer (hcursor : cursor.Faces (initializer.tokens ++ rest))
    (hopens : ∀ word, initializer = .expression word →
      (word.headD .endOfInput).opensExpr = true)
    (hexpr : ∀ word ∈ initializer.word?, ReadsWord allows room word good) :
    (forInitializer (scopeWith fuel) room).Comes allows cursor fun value reached =>
      reached.Faces rest ∧ ∃ stmt, value = some stmt ∧ initializer.Yields good stmt := by
  cases initializer with
  | expression word =>
      simp only [Initializer.tokens, List.append_assoc, List.singleton_append] at hcursor
      have hpeek := peek_of_opens rfl hcursor (hopens word rfl)
      refine comes_eat_other (Token.ne_of_class hpeek rfl) ?_
      refine comes_eat_other (Token.ne_of_class hpeek rfl) ?_
      refine (comes_expressionStatement (hexpr word rfl hcursor rfl)).map ?_
      rintro _ reached ⟨hreached, expr, rfl, hgood⟩
      exact ⟨hreached, _, rfl, .expression hgood⟩
  | var name value =>
      have hfaces : cursor.Faces (.keyword .kwVar :: (Initializer.definition name value ++ rest)) :=
        hcursor
      refine comes_eat_other (hfaces.peek ▸ nofun) ?_
      refine comes_eat hfaces nofun fun reached hreached => ?_
      refine (comes_varDefinition hreached hexpr).map ?_
      exact fun stmt after ⟨hafter, hyields⟩ => ⟨hafter, stmt, rfl, hyields⟩

/-! ## Initializers in their places -/

/-- What a loop begins with, in any loop written with `for`. -/
def CarriesInitializer (room : Nat) (initializer : Initializer) (tree : Stmt) : Prop :=
  Carries (fun fuel => forInitializer (scopeWith fuel)) (fun _ => True) (Option.map Stmt.unplaced)
    room initializer.tokens (some tree)

theorem opens_initializer (hwords : ∀ word ∈ initializer.word?, IsPiece expressionWith word) :
    Category.opens .declaration (initializer.tokens.headD .endOfInput) = true := by
  cases initializer with
  | expression word =>
      have hopens : ((word ++ [Token.symbol .semicolon]).headD .endOfInput).opensExpr = true :=
        opens_append rfl (opensExpr_of_isPiece (hwords word rfl))
      exact Bool.or_eq_true_iff.mpr (.inr (opensStatement_of_opensExpr hopens))
  | var name value => rfl

theorem carriesInitializer {stmt : Stmt} {expr : Expr}
    (hopens : ∀ word, initializer = .expression word →
      (word.headD .endOfInput).opensExpr = true)
    (hstmt : initializer.Yields (· = expr) stmt)
    (hexpr : ∀ word ∈ initializer.word?, CarriesExpr room word expr.unplaced) :
    CarriesInitializer room initializer stmt.unplaced := by
  intro fuel more cursor rest hmore hcursor _
  refine (comes_forInitializer hcursor hopens fun word hword => hexpr word hword hmore).imp ?_
  rintro _ reached ⟨hreached, other, rfl, hyields⟩
  refine ⟨hreached, congrArg some (hyields.unplaced_eq hstmt ?_)⟩
  rintro other _ hother rfl
  exact hother

theorem readsItem_initializer
    (hwords : ∀ word ∈ initializer.word?, IsPiece expressionWith word)
    (hfun : initializer.tokens.head? ≠ some (.keyword .kwFun)) :
    ReadsItem room initializer.tokens rest fun stmt =>
      CarriesInitializer room initializer stmt.unplaced := by
  have hopens : ∀ word, initializer = .expression word →
      (word.headD .endOfInput).opensExpr = true := by
    rintro word rfl
    exact opensExpr_of_isPiece (hwords word rfl)
  intro fuel less cursor hless hcursor
  cases initializer with
  | expression word =>
      have hhead : word.head? ≠ some (.keyword .kwFun) := by
        cases word with
        | nil => exact nofun
        | cons token word => exact hfun
      refine (readsItem_expression (hwords word rfl) hhead hless hcursor).imp ?_
      rintro _ reached ⟨hreached, expr, rfl, hexpr⟩
      refine ⟨hreached, carriesInitializer hopens (.expression rfl) ?_⟩
      rintro _ ⟨⟩
      exact hexpr
  | var name value =>
      have hfaces : cursor.Faces (.keyword .kwVar :: (Initializer.definition name value ++ rest)) :=
        hcursor
      refine comes_declarationWith trivial ?_
      intro fuel
      apply Comes.recovering
      refine comes_eat_other (hfaces.peek ▸ nofun) ?_
      refine comes_eat_other (hfaces.peek ▸ nofun) ?_
      refine comes_eat hfaces nofun fun reached hreached => ?_
      -- the value is the only word of the definition, so what is read of it carries every word
      have hexpr : ∀ word ∈ value, ReadsWord (fun _ => True) less word fun expr =>
          ∀ word ∈ value, CarriesExpr room word expr.unplaced := by
        intro word hword fuel cursor rest hcursor hnext
        refine (comes_carriesExpr (hwords word hword) hless hcursor hnext).imp ?_
        intro expr after ⟨hafter, hcarries⟩
        exact ⟨hafter, fun _ hother => Option.mem_unique hword hother ▸ hcarries⟩
      refine (comes_varDefinition hreached hexpr).imp ?_
      rintro stmt after ⟨hafter, hyields⟩
      obtain ⟨expr, hstmt, hcarries⟩ := hyields.exists_expr
      refine ⟨hafter, carriesInitializer hopens hstmt fun word hword => ?_⟩
      exact hcarries word hword word hword

/-! ## The two ways of writing a loop -/

/-- The tokens of a loop's parts. All but the body may be left out. -/
structure Clauses where
  initializer : Option Initializer
  condition : Option (List Token)
  increment : Option (List Token)
  body : List Token

namespace Clauses

/-- The body with the increment behind it, in a block if there is one. -/
def step (clauses : Clauses) : List Token :=
  match clauses.increment with
  | some word => .symbol .openCurly ::
      (clauses.body ++ (word ++ [.symbol .semicolon] ++ [.symbol .closeCurly]))
  | none => clauses.body

/-- The loop itself. Without a condition it goes on for ever. -/
def loop (clauses : Clauses) : List Token :=
  .keyword .kwWhile :: .symbol .openParen ::
    (clauses.condition.getD [.keyword .kwTrue] ++ .symbol .closeParen :: clauses.step)

/-- The loop written with `while`, in a block with the initializer if there is one. -/
def asWhile (clauses : Clauses) : List Token :=
  match clauses.initializer with
  | some initializer => .symbol .openCurly ::
      (initializer.tokens ++ (clauses.loop ++ [.symbol .closeCurly]))
  | none => clauses.loop

/-- The loop written with `for`. -/
def asFor (clauses : Clauses) : List Token :=
  .keyword .kwFor :: .symbol .openParen ::
    (clauses.initializer.elim [.symbol .semicolon] Initializer.tokens ++
      (clauses.condition.getD [] ++ .symbol .semicolon ::
        (clauses.increment.getD [] ++ .symbol .closeParen :: clauses.body)))

/-- The parts are what they should be, and what is to stand in the place of a declaration does not
begin like a function. -/
structure Proper (clauses : Clauses) : Prop where
  initializer : ∀ initializer ∈ clauses.initializer,
    (∀ word ∈ initializer.word?, IsPiece expressionWith word) ∧
      initializer.tokens.head? ≠ some (.keyword .kwFun)
  condition : ∀ word ∈ clauses.condition, IsPiece expressionWith word
  increment : ∀ word ∈ clauses.increment,
    IsPiece expressionWith word ∧ word.head? ≠ some (.keyword .kwFun)
  body : IsPiece statementWith clauses.body ∧ clauses.body.head? ≠ some (.keyword .kwFun)

/-- What the parts are read to wherever there is some room for nesting. -/
structure Carried (clauses : Clauses) (room : Nat) (initializer : Option Stmt)
    (condition increment : Option Expr) (body : Stmt) : Prop where
  initializer : Option.Rel (CarriesInitializer room) clauses.initializer initializer
  condition : Option.Rel (CarriesExpr room) clauses.condition condition
  increment : Option.Rel (CarriesExpr room) clauses.increment increment
  body : CarriesStmt room clauses.body body

/-- What the loop itself is read to, with what its parts are read to. -/
def IsLoop (clauses : Clauses) (room : Nat) (stmt : Stmt) : Prop :=
  ∃ condition increment body, stmt.unplaced = forLoop none condition increment body ∧
    Option.Rel (CarriesExpr room) clauses.condition condition ∧
    Option.Rel (CarriesExpr room) clauses.increment increment ∧
    CarriesStmt room clauses.body body

variable {clauses : Clauses}

/-- The body and the increment, as the loop has them. -/
theorem comes_step (hproper : clauses.Proper) {less : Nat} (hless : less ≤ room)
    (hcursor : cursor.Faces (clauses.step ++ rest))
    (hnext : rest.headD .endOfInput ≠ .keyword .kwElse) :
    (statementWith fuel less).Comes (fun _ => True) cursor fun stmt reached =>
      reached.Faces rest ∧ ∃ increment body,
        stmt.unplaced = (match increment with
          | some increment => .block [body, .expression increment]
          | none => body) ∧
        Option.Rel (CarriesExpr room) clauses.increment increment ∧
        CarriesStmt room clauses.body body := by
  obtain ⟨hbody, hbodyFun⟩ := hproper.body
  unfold step at hcursor
  cases hincrement : clauses.increment with
  | none =>
      rw [hincrement] at hcursor
      refine (comes_carriesStmt hbody hless hcursor hnext).imp ?_
      rintro stmt reached ⟨hreached, hstmt⟩
      exact ⟨hreached, none, stmt.unplaced, rfl, .none, hstmt⟩
  | some word =>
      obtain ⟨hword, hwordFun⟩ := hproper.increment word hincrement
      have hfaces : cursor.Faces (.symbol .openCurly :: (clauses.body ++
          ((word ++ [.symbol .semicolon]) ++ .symbol .closeCurly :: rest))) := by
        simpa only [hincrement, List.cons_append, List.append_assoc, List.nil_append] using hcursor
      have hsecond : ((word ++ [Token.symbol .semicolon]).headD .endOfInput).opensExpr = true :=
        opens_append rfl (opensExpr_of_isPiece hword)
      -- the increment ends an open conditional in the body, for it does not begin with `else`
      have hnext : (word ++ [Token.symbol .semicolon] ++ .symbol .closeCurly :: rest).headD
          .endOfInput ≠ .keyword .kwElse :=
        Token.ne_of_class (opens_append rfl hsecond) rfl
      refine (comes_pair (Nat.le_succ_of_le hless) hfaces ?_ ?_
        (readsItem_statement hbody hbodyFun hnext) (readsItem_expression hword hwordFun)).imp ?_
      · exact Bool.or_eq_true_iff.mpr (.inr (opensStatement_of_isPiece hbody))
      · exact Bool.or_eq_true_iff.mpr (.inr (opensStatement_of_opensExpr hsecond))
      rintro _ reached ⟨hreached, front, _, rfl, hfront, increment, rfl, hincrementTree⟩
      refine ⟨hreached, some increment.unplaced, front.unplaced, ?_, .some hincrementTree, hfront⟩
      simp only [Stmt.unplaced, Stmt.unplacedAll]

/-- The loop itself, before anything but an `else`. -/
theorem comes_loop (hproper : clauses.Proper) {less : Nat} (hless : less ≤ room + 1)
    (hcursor : cursor.Faces (clauses.loop ++ rest))
    (hnext : rest.headD .endOfInput ≠ .keyword .kwElse) :
    (statementWith fuel less).Comes (fun _ => True) cursor fun stmt reached =>
      reached.Faces rest ∧ clauses.IsLoop room stmt := by
  have hcondition : IsPiece expressionWith (clauses.condition.getD [.keyword .kwTrue]) := by
    cases hword : clauses.condition with
    | none => exact isPiece_literal (.bool true)
    | some word => exact hproper.condition word hword
  simp only [loop, List.cons_append, List.append_assoc] at hcursor
  refine (comes_while hless hcondition hcursor fun hinner hreached =>
    comes_step hproper hinner hreached hnext).imp ?_
  rintro _ reached ⟨hreached, condition, inner, rfl, hcarries, increment, body, hinner, hparts⟩
  cases hword : clauses.condition with
  | none =>
      -- the condition is written out, and its tree is the one that stands for a missing one
      rw [hword] at hcarries
      have htrue := @eq_of_carriesExpr_literal _ (.bool true) _ hcarries
      refine ⟨hreached, none, increment, body, ?_, hword ▸ .none, hparts⟩
      rw [Stmt.unplaced, htrue, hinner]
      rfl
  | some word =>
      rw [hword] at hcarries
      refine ⟨hreached, some condition.unplaced, increment, body, ?_, hword ▸ .some hcarries,
        hparts⟩
      rw [Stmt.unplaced, hinner]
      rfl

/-- What the loop written with `while` is read to, and its parts with it. -/
theorem comes_asWhile (hproper : clauses.Proper) {less : Nat} (hless : less ≤ room + 1)
    (hcursor : cursor.Faces (clauses.asWhile ++ rest))
    (hnext : rest.headD .endOfInput ≠ .keyword .kwElse) :
    (statementWith fuel less).Comes (fun _ => True) cursor fun stmt reached =>
      reached.Faces rest ∧ ∃ initializer condition increment body,
        stmt.unplaced = forLoop initializer condition increment body ∧
        clauses.Carried room initializer condition increment body := by
  unfold asWhile at hcursor
  cases hinitializer : clauses.initializer with
  | none =>
      rw [hinitializer] at hcursor
      refine (comes_loop hproper hless hcursor hnext).imp ?_
      rintro stmt reached ⟨hreached, condition, increment, body, hstmt, htest, hlast, hbody⟩
      refine ⟨hreached, none, condition, increment, body, hstmt, ?_⟩
      exact ⟨hinitializer ▸ .none, htest, hlast, hbody⟩
  | some initializer =>
      obtain ⟨hwords, hfun⟩ := hproper.initializer initializer hinitializer
      have hfaces : cursor.Faces (.symbol .openCurly :: (initializer.tokens ++
          (clauses.loop ++ .symbol .closeCurly :: rest))) := by
        simpa only [hinitializer, List.cons_append, List.append_assoc, List.nil_append]
          using hcursor
      have hloop : ReadsItem room clauses.loop (.symbol .closeCurly :: rest)
          (clauses.IsLoop room) := by
        intro fuel less cursor hless hcursor
        have hpeek : cursor.peek.value = .keyword .kwWhile := hcursor.peek
        refine comes_declaration_statement trivial (hpeek ▸ rfl) ?_
        exact comes_loop hproper (Nat.le_succ_of_le hless) hcursor nofun
      have hopens := opens_initializer hwords
      refine (comes_pair hless hfaces hopens rfl (readsItem_initializer hwords hfun) hloop).imp ?_
      rintro _ reached ⟨hreached, front, inner, rfl, hfront, condition, increment, body, hinner,
        htest, hlast, hbody⟩
      refine ⟨hreached, some front.unplaced, condition, increment, body, ?_, ?_⟩
      · rw [Stmt.unplaced, Stmt.unplacedAll, Stmt.unplacedAll, Stmt.unplacedAll, hinner]
        rfl
      · exact ⟨hinitializer ▸ .some hfront, htest, hlast, hbody⟩

/-! ### Written with `for` -/

section Rel

variable {α β γ : Type} {part : Option α} {value : Option β} {tree : Option γ}

theorem exists_of_rel {good : α → γ → Prop} (h : Option.Rel good part tree) {word : α}
    (hword : word ∈ part) : ∃ node ∈ tree, good word node := by
  cases h with
  | some hgood =>
      cases hword
      exact ⟨_, rfl, hgood⟩
  | none => cases hword

theorem isSome_of_rel {good : α → γ → Prop} (h : Option.Rel good part tree) :
    tree.isSome = part.isSome := by
  cases h <;> rfl

theorem map_eq_of_rel {good : α → γ → Prop} {image : β → γ} (h : Option.Rel good part tree)
    (hvalue : Option.Rel (fun _ value => ∀ node ∈ tree, image value = node) part value) :
    value.map image = tree := by
  cases h with
  | some hgood =>
      cases hvalue with
      | some himage => exact congrArg some (himage _ rfl)
  | none =>
      cases hvalue
      rfl

end Rel

/-- What the parts are read to in a loop written with `for`, with some room for nesting. -/
structure ReadAt (clauses : Clauses) (allows : Trouble → Prop) (room : Nat)
    (goodInitializer : Stmt → Prop) (goodCondition goodIncrement : Expr → Prop)
    (goodBody : Stmt → Prop) : Prop where
  initializer : ∀ initializer ∈ clauses.initializer, ∀ {fuel cursor rest},
    cursor.Faces (initializer.tokens ++ rest) →
    (forInitializer (scopeWith fuel) room).Comes allows cursor fun value reached =>
      reached.Faces rest ∧ ∃ stmt, value = some stmt ∧ goodInitializer stmt
  condition : ∀ word ∈ clauses.condition, ReadsWord allows room word goodCondition
  increment : ∀ word ∈ clauses.increment, ReadsWord allows room word goodIncrement
  body : ∀ {fuel cursor rest}, cursor.Faces (clauses.body ++ rest) →
    rest.headD .endOfInput ≠ .keyword .kwElse →
    (statementWith fuel room).Comes allows cursor fun stmt reached =>
      reached.Faces rest ∧ goodBody stmt

theorem comes_clause {stop : Symbol} {part : Option (List Token)}
    (hstop : Token.endsExpr (.symbol stop) = true)
    (hcursor : cursor.Faces (part.getD [] ++ .symbol stop :: rest))
    (hpieces : ∀ word ∈ part, IsPiece expressionWith word)
    (hexpr : ∀ word ∈ part, ReadsWord allows room word good) :
    (clause (scopeWith fuel) room stop).Comes allows cursor fun value reached =>
      reached.Faces (.symbol stop :: rest) ∧ Option.Rel (fun _ => good) part value := by
  cases part with
  | none =>
      have hpeek : cursor.peek.value = .symbol stop := hcursor.peek
      apply comes_isAhead
      rw [decide_eq_true hpeek]
      exact comes_pure ⟨hcursor, .none⟩
  | some word =>
      have hopens := peek_of_opens rfl hcursor (opensExpr_of_isPiece (hpieces word rfl))
      have hclosed : Token.opensExpr (.symbol stop) = false := opensExpr_of_endsExpr hstop
      apply comes_isAhead
      rw [decide_eq_false (Token.ne_of_class hopens hclosed)]
      refine Comes.map (hexpr word rfl hcursor hstop) fun expr reached ⟨hreached, hgood⟩ => ?_
      exact ⟨hreached, .some hgood⟩

/-- A loop written with `for` is put together from its parts. -/
theorem comes_asFor {goodInitializer goodBody : Stmt → Prop}
    {goodCondition goodIncrement : Expr → Prop} (hproper : clauses.Proper)
    (hreads : ∀ inner, room = inner + 1 →
      clauses.ReadAt allows inner goodInitializer goodCondition goodIncrement goodBody)
    (hunfinished : allows .unfinished) (hdeep : room = 0 → allows (.failed .tooDeep))
    (hcursor : cursor.Faces (clauses.asFor ++ rest))
    (hnext : rest.headD .endOfInput ≠ .keyword .kwElse) :
    (statementWith fuel room).Comes allows cursor fun stmt reached =>
      reached.Faces rest ∧ ∃ initializer condition increment body,
        stmt = forLoop initializer condition increment body ∧
        Option.Rel (fun _ => goodInitializer) clauses.initializer initializer ∧
        Option.Rel (fun _ => goodCondition) clauses.condition condition ∧
        Option.Rel (fun _ => goodIncrement) clauses.increment increment ∧ goodBody body := by
  simp only [asFor, List.cons_append, List.append_assoc] at hcursor
  refine comes_statementWith hunfinished hdeep fun {fuel inner} hroom => ?_
  have hreads := hreads inner hroom
  refine comes_eat hcursor nofun fun reached hreached => ?_
  refine comes_expectSymbol hreached fun _ reached hreached => ?_
  have hinitializer : (forInitializer (scopeWith fuel) inner).Comes allows reached
      fun value after => after.Faces (clauses.condition.getD [] ++ .symbol .semicolon ::
        (clauses.increment.getD [] ++ .symbol .closeParen :: (clauses.body ++ rest))) ∧
        Option.Rel (fun _ => goodInitializer) clauses.initializer value := by
    cases hinitializer : clauses.initializer with
    | none =>
        rw [hinitializer] at hreached
        exact comes_eat hreached nofun fun after hafter => comes_pure ⟨hafter, .none⟩
    | some initializer =>
        rw [hinitializer] at hreached
        refine (hreads.initializer initializer hinitializer hreached).imp ?_
        rintro _ after ⟨hafter, stmt, rfl, hgood⟩
        exact ⟨hafter, .some hgood⟩
  refine hinitializer.bind fun initializer reached ⟨hreached, hinitializer⟩ => ?_
  refine (comes_clause rfl hreached hproper.condition hreads.condition).bind ?_
  rintro condition reached ⟨hreached, hcondition⟩
  refine comes_expectSymbol hreached fun _ reached hreached => ?_
  have hpieces := fun word hword => (hproper.increment word hword).1
  refine (comes_clause rfl hreached hpieces hreads.increment).bind ?_
  rintro increment reached ⟨hreached, hincrement⟩
  refine comes_expectSymbol hreached fun _ reached hreached => ?_
  refine (hreads.body hreached hnext).bind fun body after ⟨hafter, hbody⟩ => comes_pure ?_
  exact ⟨hafter, initializer, condition, increment, body, rfl, hinitializer, hcondition,
    hincrement, hbody⟩

/-- What carries the parts of a loop carries the loop written with `for`. -/
theorem Carried.comes_asFor {more : Nat} {initializer : Option Stmt}
    {condition increment : Option Expr} {body : Stmt}
    (h : clauses.Carried room initializer condition increment body) (hproper : clauses.Proper)
    (hmore : room + 1 ≤ more) (hcursor : cursor.Faces (clauses.asFor ++ rest))
    (hnext : rest.headD .endOfInput ≠ .keyword .kwElse) :
    (statementWith fuel more).Comes (· = .unfinished) cursor fun stmt reached =>
      reached.Faces rest ∧ stmt.unplaced = forLoop initializer condition increment body := by
  have hreads : ∀ inner, more = inner + 1 → clauses.ReadAt (· = .unfinished) inner
      (fun stmt => ∀ tree ∈ initializer, stmt.unplaced = tree)
      (fun expr => ∀ tree ∈ condition, expr.unplaced = tree)
      (fun expr => ∀ tree ∈ increment, expr.unplaced = tree) (·.unplaced = body) := by
    rintro inner rfl
    have hinner : room ≤ inner := Nat.le_of_succ_le_succ hmore
    constructor
    · intro word hword fuel cursor rest hcursor
      obtain ⟨tree, htree, hcarries⟩ := exists_of_rel h.initializer hword
      refine (hcarries hinner hcursor trivial).imp ?_
      rintro value reached ⟨hreached, hvalue⟩
      obtain ⟨stmt, rfl, hstmt⟩ := Option.map_eq_some_iff.mp hvalue
      exact ⟨hreached, stmt, rfl, fun _ hother => Option.mem_unique htree hother ▸ hstmt⟩
    · intro word hword fuel cursor rest hcursor hnext
      obtain ⟨tree, htree, hcarries⟩ := exists_of_rel h.condition hword
      refine (hcarries hinner hcursor hnext).imp ?_
      rintro expr reached ⟨hreached, hexpr⟩
      exact ⟨hreached, fun _ hother => Option.mem_unique htree hother ▸ hexpr⟩
    · intro word hword fuel cursor rest hcursor hnext
      obtain ⟨tree, htree, hcarries⟩ := exists_of_rel h.increment hword
      refine (hcarries hinner hcursor hnext).imp ?_
      rintro expr reached ⟨hreached, hexpr⟩
      exact ⟨hreached, fun _ hother => Option.mem_unique htree hother ▸ hexpr⟩
    · exact h.body hinner
  have hdeep : more = 0 → Trouble.failed .tooDeep = .unfinished :=
    fun hzero => absurd (hzero ▸ hmore) (Nat.not_succ_le_zero room)
  refine (Clauses.comes_asFor hproper hreads rfl hdeep hcursor hnext).imp ?_
  rintro _ reached ⟨hreached, first, test, last, inner, rfl, hfirst, htest, hlast, hinner⟩
  refine ⟨hreached, ?_⟩
  rw [unplaced_forLoop, map_eq_of_rel h.initializer hfirst, map_eq_of_rel h.condition htest,
    map_eq_of_rel h.increment hlast, hinner]

theorem Proper.readAt (h : clauses.Proper) (room : Nat) :
    clauses.ReadAt (fun _ => True) room (fun _ => True) (fun _ => True) (fun _ => True)
      fun _ => True := by
  have hexpr : ∀ {word}, IsPiece expressionWith word →
      ReadsWord (fun _ => True) room word fun _ => True := by
    intro word hword fuel cursor rest hcursor hnext
    refine (comes_carriesExpr hword (Nat.le_refl room) hcursor hnext).imp ?_
    exact fun _ _ ⟨hreached, _⟩ => ⟨hreached, trivial⟩
  constructor
  · intro initializer hinitializer fuel cursor rest hcursor
    obtain ⟨hwords, -⟩ := h.initializer initializer hinitializer
    refine (comes_forInitializer hcursor ?_ fun word hword => hexpr (hwords word hword)).imp ?_
    · rintro word rfl
      exact opensExpr_of_isPiece (hwords word rfl)
    · rintro value reached ⟨hreached, stmt, hvalue, -⟩
      exact ⟨hreached, stmt, hvalue, trivial⟩
  · exact fun word hword => hexpr (h.condition word hword)
  · exact fun word hword => hexpr (h.increment word hword).1
  · intro fuel cursor rest hcursor hnext
    refine (comes_carriesStmt h.body.1 (Nat.le_refl room) hcursor hnext).imp ?_
    exact fun _ _ ⟨hreached, _⟩ => ⟨hreached, trivial⟩

/-- Whatever is read of a loop written with `for` is put together from as many parts. -/
theorem Proper.forLoop_of_done (hproper : clauses.Proper) {stmt : Stmt} {reached : Cursor}
    (hcursor : cursor.Faces (clauses.asFor ++ rest))
    (hnext : rest.headD .endOfInput ≠ .keyword .kwElse)
    (hdone : statementWith fuel room cursor = .done stmt reached) :
    ∃ initializer condition increment body,
      stmt = forLoop initializer condition increment body ∧
      initializer.isSome = clauses.initializer.isSome ∧
      condition.isSome = clauses.condition.isSome ∧
      increment.isSome = clauses.increment.isSome := by
  have hreads := fun inner (_ : room = inner + 1) => hproper.readAt inner
  rcases Clauses.comes_asFor hproper hreads trivial (fun _ => trivial) hcursor hnext with
    ⟨value, after, hvalue, -, initializer, condition, increment, body, hstmt, hinitializer,
      hcondition, hincrement, -⟩ | ⟨trouble, htrouble, -⟩
  · cases hdone.symm.trans hvalue
    exact ⟨initializer, condition, increment, body, hstmt, isSome_of_rel hinitializer,
      isSome_of_rel hcondition, isSome_of_rel hincrement⟩
  · rw [hdone] at htrouble
    cases htrouble

end Clauses

end Grammar

end Stacklet
