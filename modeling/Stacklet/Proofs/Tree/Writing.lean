import Stacklet.Proofs.Tree.Rendering

/-! # Tokens of a rendering

Marks are written as tokens that are the marks' and stand where the tree says. Lists are written
piece by piece, and an operator is known by its token on its own level only.
-/

namespace Stacklet

variable {α : Type}

/-! ## Marks -/

/-- A token of a text that a mark stands for. -/
def Mark.Matches (mark : Mark) (token : Located Token) : Prop :=
  token.value = mark.token ∧ ∀ place ∈ mark.place, place = some token.span

/-- Marks are written as tokens of a text. -/
def Written (marks : List Mark) (tokens : List (Located Token)) : Prop :=
  List.Forall₂ Mark.Matches marks tokens

@[simp] theorem Mark.matches_symbol {symbol : Symbol} {token : Located Token} :
    (Mark.symbol symbol).Matches token ↔ token.value = .symbol symbol := by
  simp [Mark.Matches, Mark.symbol]

@[simp] theorem Mark.matches_keyword {word : Keyword} {token : Located Token} :
    (Mark.keyword word).Matches token ↔ token.value = .keyword word := by
  simp [Mark.Matches, Mark.keyword]

@[simp] theorem Mark.matches_placed {value : Token} {span : Span} {token : Located Token} :
    (Mark.placed value span).Matches token ↔ token = ⟨value, span⟩ := by
  cases token
  simp [Mark.Matches, Mark.placed, eq_comm]

@[simp] theorem Mark.matches_name {name : Located String} {token : Located Token} :
    (Mark.name name).Matches token ↔ token = ⟨.name name.value, name.span⟩ :=
  Mark.matches_placed

@[simp] theorem written_nil {tokens : List (Located Token)} : Written [] tokens ↔ tokens = [] :=
  List.forall₂_nil_left_iff

theorem written_cons {mark : Mark} {marks : List Mark} {tokens : List (Located Token)} :
    Written (mark :: marks) tokens ↔
      ∃ token rest, tokens = token :: rest ∧ mark.Matches token ∧ Written marks rest := by
  rw [Written, List.forall₂_cons_left_iff]
  constructor
  · rintro ⟨token, rest, hmark, hrest, rfl⟩
    exact ⟨token, rest, rfl, hmark, hrest⟩
  · rintro ⟨token, rest, rfl, hmark, hrest⟩
    exact ⟨token, rest, hmark, hrest, rfl⟩

theorem Written.cons {mark : Mark} {marks : List Mark} {token : Located Token}
    {tokens : List (Located Token)} (h : mark.Matches token) (hrest : Written marks tokens) :
    Written (mark :: marks) (token :: tokens) :=
  List.Forall₂.cons h hrest

theorem Written.append {left right : List Mark} {front back : List (Located Token)}
    (hleft : Written left front) (hright : Written right back) :
    Written (left ++ right) (front ++ back) :=
  List.rel_append hleft hright

theorem written_append {left right : List Mark} {tokens : List (Located Token)} :
    Written (left ++ right) tokens ↔
      ∃ front back, tokens = front ++ back ∧ Written left front ∧ Written right back := by
  constructor
  · induction left generalizing tokens with
    | nil =>
        intro h
        exact ⟨[], tokens, rfl, .nil, h⟩
    | cons mark left ih =>
        intro h
        obtain ⟨token, rest, rfl, hmark, hrest⟩ := written_cons.mp h
        obtain ⟨front, back, rfl, hleft, hright⟩ := ih hrest
        exact ⟨token :: front, back, rfl, hleft.cons hmark, hright⟩
  · rintro ⟨front, back, rfl, hleft, hright⟩
    exact hleft.append hright

theorem written_concat {mark : Mark} {marks : List Mark} {tokens : List (Located Token)} :
    Written (marks ++ [mark]) tokens ↔
      ∃ front token, tokens = front ++ [token] ∧ Written marks front ∧ mark.Matches token := by
  rw [written_append]
  constructor
  · rintro ⟨front, back, rfl, hfront, hback⟩
    obtain ⟨token, _, rfl, hmark, hnil⟩ := written_cons.mp hback
    obtain rfl := written_nil.mp hnil
    exact ⟨front, token, rfl, hfront, hmark⟩
  · rintro ⟨front, token, rfl, hfront, hmark⟩
    exact ⟨front, [token], rfl, hfront, .cons hmark .nil⟩

theorem Written.length_eq {marks : List Mark} {tokens : List (Located Token)}
    (h : Written marks tokens) : marks.length = tokens.length :=
  List.Forall₂.length_eq h

/-! ## Lists -/

/-- Tokens of some values, piece after piece. -/
inductive Sequence (good : α → List (Located Token) → Prop) :
    List α → List (Located Token) → Prop
  | nil : Sequence good [] []
  | cons {value : α} {values : List α} {piece tokens : List (Located Token)}
      (h : good value piece) (hrest : Sequence good values tokens) :
      Sequence good (value :: values) (piece ++ tokens)

/-- Tokens of one or more values, with commas between the pieces. -/
inductive Separated (good : α → List (Located Token) → Prop) :
    List α → List (Located Token) → Prop
  | last {value : α} {piece : List (Located Token)} (h : good value piece) :
      Separated good [value] piece
  | cons {value : α} {values : List α} {piece tokens : List (Located Token)}
      {comma : Located Token} (h : good value piece) (hcomma : comma.value = .symbol .comma)
      (hrest : Separated good values tokens) :
      Separated good (value :: values) (piece ++ comma :: tokens)

theorem sequence_iff {marks : α → List Mark} {good : α → Prop} {values : List α}
    {tokens : List (Located Token)} :
    Sequence (fun value piece => Written (marks value) piece ∧ good value) values tokens ↔
      Written (values.flatMap marks) tokens ∧ ∀ value ∈ values, good value := by
  constructor
  · intro h
    induction h with
    | nil => exact ⟨.nil, List.forall_mem_nil _⟩
    | cons h _ ih => exact ⟨h.1.append ih.1, List.forall_mem_cons.mpr ⟨h.2, ih.2⟩⟩
  · induction values generalizing tokens with
    | nil =>
        rintro ⟨h, -⟩
        obtain rfl := written_nil.mp h
        exact .nil
    | cons value values ih =>
        rintro ⟨h, hgood⟩
        obtain ⟨piece, rest, rfl, hpiece, hrest⟩ := written_append.mp h
        obtain ⟨hvalue, hvalues⟩ := List.forall_mem_cons.mp hgood
        exact .cons ⟨hpiece, hvalue⟩ (ih ⟨hrest, hvalues⟩)

theorem separated_iff {marks : α → List Mark} {good : α → Prop} {values : List α}
    {tokens : List (Located Token)} :
    Separated (fun value piece => Written (marks value) piece ∧ good value) values tokens ↔
      values ≠ [] ∧ Written (listed (values.map marks)) tokens ∧ ∀ value ∈ values, good value := by
  constructor
  · intro h
    induction h with
    | last h => exact ⟨List.cons_ne_nil _ _, h.1, List.forall_mem_singleton.mpr h.2⟩
    | @cons value values piece tokens comma h hcomma _ ih =>
        obtain ⟨hne, hwritten, hgood⟩ := ih
        refine ⟨List.cons_ne_nil _ _, ?_, List.forall_mem_cons.mpr ⟨h.2, hgood⟩⟩
        obtain ⟨next, values, rfl⟩ := List.exists_cons_of_ne_nil hne
        exact h.1.append (hwritten.cons (Mark.matches_symbol.mpr hcomma))
  · induction values generalizing tokens with
    | nil => exact fun h => absurd rfl h.1
    | cons value values ih =>
        rintro ⟨-, h, hgood⟩
        obtain ⟨hvalue, hvalues⟩ := List.forall_mem_cons.mp hgood
        -- Whether a comma follows depends on the next entry.
        cases values with
        | nil => exact .last ⟨h, hvalue⟩
        | cons next values =>
            obtain ⟨piece, rest, rfl, hpiece, hrest⟩ := written_append.mp h
            obtain ⟨comma, rest, rfl, hcomma, hrest⟩ := written_cons.mp hrest
            exact .cons ⟨hpiece, hvalue⟩ (Mark.matches_symbol.mp hcomma)
              (ih ⟨List.cons_ne_nil _ _, hrest, hvalues⟩)

theorem separated_or_nil {marks : α → List Mark} {good : α → Prop} {values : List α}
    {tokens : List (Located Token)} (h : Written (listed (values.map marks)) tokens)
    (hgood : ∀ value ∈ values, good value) :
    values = [] ∧ tokens = [] ∨
      Separated (fun value piece => Written (marks value) piece ∧ good value) values tokens := by
  by_cases hnil : values = []
  · subst hnil
    exact .inl ⟨rfl, written_nil.mp h⟩
  · exact .inr (separated_iff.mpr ⟨hnil, h, hgood⟩)

theorem Sequence.bounded {good : α → List (Located Token) → Prop} {values : List α}
    {tokens : List (Located Token)} (h : Sequence good values tokens) {bound : Nat}
    (hbound : tokens.length ≤ bound) :
    Sequence (fun value piece => good value piece ∧ piece.length ≤ bound) values tokens := by
  induction h with
  | nil => exact .nil
  | cons h _ ih =>
      rw [List.length_append] at hbound
      exact .cons ⟨h, by omega⟩ (ih (by omega))

theorem Sequence.length_le {good : α → List (Located Token) → Prop} {values : List α}
    {tokens : List (Located Token)} (h : Sequence good values tokens)
    (hpos : ∀ {value piece}, good value piece → 0 < piece.length) :
    values.length ≤ tokens.length := by
  induction h with
  | nil => exact Nat.le_refl 0
  | cons h _ ih =>
      have hpiece := hpos h
      rw [List.length_append, List.length_cons]
      omega

theorem Separated.bounded {good : α → List (Located Token) → Prop} {values : List α}
    {tokens : List (Located Token)} (h : Separated good values tokens) {bound : Nat}
    (hbound : tokens.length ≤ bound) :
    Separated (fun value piece => good value piece ∧ piece.length ≤ bound) values tokens := by
  induction h with
  | last h => exact .last ⟨h, hbound⟩
  | cons h hcomma _ ih =>
      rw [List.length_append, List.length_cons] at hbound
      exact .cons ⟨h, by omega⟩ hcomma (ih (by omega))

theorem Separated.length_le {good : α → List (Located Token) → Prop} {values : List α}
    {tokens : List (Located Token)} (h : Separated good values tokens) :
    values.length ≤ tokens.length + 1 := by
  induction h with
  | last => exact Nat.le_add_left 1 _
  | cons _ _ _ ih =>
      rw [List.length_append, List.length_cons, List.length_cons]
      omega

theorem Expr.marksOf_eq (exprs : List Expr) : Expr.marksOf exprs = exprs.map Expr.marks := by
  induction exprs with
  | nil => rfl
  | cons expr rest ih => rw [Expr.marksOf, ih, List.map_cons]

theorem Stmt.marksOf_eq (body : List Stmt) : Stmt.marksOf body = body.flatMap Stmt.marks := by
  induction body with
  | nil => rfl
  | cons stmt rest ih => rw [Stmt.marksOf, ih, List.flatMap_cons]

theorem Function.marksOf_eq (functions : List Function) :
    Function.marksOf functions = functions.flatMap Function.marks := by
  induction functions with
  | nil => rfl
  | cons function rest ih => rw [Function.marksOf, ih, List.flatMap_cons]

theorem Expr.all_iff {exprs : List Expr} {room : Nat} :
    Expr.AllCanonical exprs ∧ Expr.depthOf exprs ≤ room ↔
      ∀ expr ∈ exprs, expr.Canonical ∧ expr.depth + 1 ≤ room := by
  induction exprs with
  | nil => simp [Expr.AllCanonical, Expr.depthOf]
  | cons expr rest ih =>
      rw [List.forall_mem_cons, ← ih, Expr.AllCanonical, Expr.depthOf, Nat.max_le]
      exact and_and_and_comm

theorem Stmt.all_iff {body : List Stmt} {room : Nat} :
    Stmt.AllCanonical body ∧ Stmt.depthOf body ≤ room ↔
      ∀ stmt ∈ body, stmt.Canonical ∧ stmt.looksDeclared = false ∧ stmt.depth ≤ room := by
  induction body with
  | nil => simp [Stmt.AllCanonical, Stmt.depthOf]
  | cons stmt rest ih =>
      rw [List.forall_mem_cons, ← ih, Stmt.AllCanonical, Stmt.depthOf, Nat.max_le]
      tauto

theorem Function.all_iff {functions : List Function} {room : Nat} :
    Function.AllCanonical functions ∧ Function.depthOf functions ≤ room ↔
      ∀ function ∈ functions, function.Canonical ∧ function.depth ≤ room := by
  induction functions with
  | nil => simp [Function.AllCanonical, Function.depthOf]
  | cons function rest ih =>
      rw [List.forall_mem_cons, ← ih, Function.AllCanonical, Function.depthOf, Nat.max_le]
      exact and_and_and_comm

theorem Stmt.depth_pos {stmt : Stmt} (h : stmt.isDeclaration = false) :
    0 < stmt.depth := by
  cases stmt with
  | ret keyword value => cases value <;> exact Nat.succ_pos _
  | varDef => exact nomatch h
  | funDef => exact nomatch h
  | classDef => exact nomatch h
  | _ => exact Nat.succ_pos _

/-! ## Functions and conditions -/

/-- Parameters and a body stand behind what begins a function. -/
theorem written_body {names : List (Located String)} {body : List Stmt}
    {tokens : List (Located Token)} :
    Written (parameterMarks names ++
        .symbol .openCurly :: (Stmt.marksOf body ++ [.symbol .closeCurly])) tokens ↔
      ∃ paren front curly back, tokens = paren :: (front ++ curly :: back) ∧
        paren.value = .symbol .openParen ∧
        Written (listed (names.map fun name => [.name name]) ++ [.symbol .closeParen]) front ∧
        curly.value = .symbol .openCurly ∧
        Written (Stmt.marksOf body ++ [.symbol .closeCurly]) back := by
  constructor
  · intro h
    obtain ⟨paren, _, rfl, hparen, h⟩ := written_cons.mp h
    obtain ⟨front, _, rfl, hnames, h⟩ := written_append.mp h
    obtain ⟨curly, back, rfl, hcurly, hbody⟩ := written_cons.mp h
    exact ⟨paren, front, curly, back, rfl, Mark.matches_symbol.mp hparen, hnames,
      Mark.matches_symbol.mp hcurly, hbody⟩
  · rintro ⟨paren, front, curly, back, rfl, hparen, hnames, hcurly, hbody⟩
    exact (hnames.cons (Mark.matches_symbol.mpr hparen)).append
      (hbody.cons (Mark.matches_symbol.mpr hcurly))

/-- A keyword and a condition in parentheses stand before branches. -/
theorem written_condition {keyword : Keyword} {condition branches : List Mark}
    {tokens : List (Located Token)} :
    Written (.keyword keyword :: .symbol .openParen ::
        (condition ++ .symbol .closeParen :: branches)) tokens ↔
      ∃ word paren front close tail, tokens = word :: paren :: (front ++ close :: tail) ∧
        word.value = .keyword keyword ∧ paren.value = .symbol .openParen ∧
        Written condition front ∧ close.value = .symbol .closeParen ∧ Written branches tail := by
  constructor
  · intro h
    obtain ⟨word, _, rfl, hword, h⟩ := written_cons.mp h
    obtain ⟨paren, _, rfl, hparen, h⟩ := written_cons.mp h
    obtain ⟨front, _, rfl, hcondition, h⟩ := written_append.mp h
    obtain ⟨close, tail, rfl, hclose, htail⟩ := written_cons.mp h
    exact ⟨word, paren, front, close, tail, rfl, Mark.matches_keyword.mp hword,
      Mark.matches_symbol.mp hparen, hcondition, Mark.matches_symbol.mp hclose, htail⟩
  · rintro ⟨word, paren, front, close, tail, rfl, hword, hparen, hcondition, hclose, htail⟩
    exact ((hcondition.append (htail.cons (Mark.matches_symbol.mpr hclose))).cons
      (Mark.matches_symbol.mpr hparen)).cons (Mark.matches_keyword.mpr hword)

/-! ## Operators and constants -/

theorem BinaryOp.rank_lt (op : BinaryOp) : op.rank < 7 := by
  cases op <;> decide

theorem LogicalOp.rank_lt (op : LogicalOp) : op.rank < 7 := by
  cases op <;> decide

theorem Literal.token_ne_endOfInput (value : Literal) : value.token ≠ .endOfInput := by
  cases value with
  | bool value => cases value <;> exact nofun
  | _ => exact nofun

theorem UnaryOp.token_ne_endOfInput (op : UnaryOp) : op.token ≠ .endOfInput := by
  cases op <;> exact nofun

namespace Grammar

/-- The token of an operator. -/
def InfixOp.token : InfixOp → Token
  | binary op => op.token
  | logical op => op.token

/-- How tightly an operator holds its operands. -/
def InfixOp.rank : InfixOp → Nat
  | binary op => op.rank
  | logical op => op.rank

/-- How tightly the operators of a level hold their operands. -/
def Level.rank : Level → Nat
  | disjunction => 1
  | conjunction => 2
  | equality => 3
  | comparison => 4
  | term => 5
  | factor => 6

theorem Level.operator?_eq_some_iff {level : Level} {token : Token} {op : InfixOp} :
    level.operator? token = some op ↔ token = op.token ∧ op.rank = level.rank := by
  constructor
  · intro h
    unfold Level.operator? at h
    split at h <;> cases h <;> exact ⟨rfl, rfl⟩
  · rintro ⟨rfl, h⟩
    rcases op with (_ | _ | _ | _ | _ | _ | _ | _ | _ | _) | (_ | _) <;> cases level <;>
      first | rfl | exact nomatch h

theorem literal?_eq_some_iff {token : Token} {value : Literal} :
    literal? token = some value ↔ token = value.token := by
  constructor
  · intro h
    unfold literal? at h
    split at h <;> cases h <;> rfl
  · rintro rfl
    cases value with
    | bool value => cases value <;> rfl
    | _ => rfl

theorem unary?_eq_some_iff {token : Token} {op : UnaryOp} :
    unary? token = some op ↔ token = op.token := by
  constructor
  · intro h
    unfold unary? at h
    split at h <;> cases h <;> rfl
  · rintro rfl
    cases op <;> rfl

namespace InfixOp

variable {left right : Expr} {span : Span}

theorem marks_apply (op : InfixOp) :
    (op.apply left span right).marks = left.marks ++ .placed op.token span :: right.marks := by
  cases op <;> rw [InfixOp.apply, Expr.marks] <;> rfl

theorem rank_apply (op : InfixOp) : (op.apply left span right).rank = op.rank := by
  cases op <;> rfl

theorem canonical_apply (op : InfixOp) :
    (op.apply left span right).Canonical ↔
      left.Canonical ∧ right.Canonical ∧ op.rank ≤ left.rank ∧ op.rank < right.rank := by
  cases op <;> rw [InfixOp.apply, Expr.Canonical] <;> rfl

theorem depth_apply (op : InfixOp) :
    (op.apply left span right).depth = max left.depth right.depth := by
  cases op <;> rw [InfixOp.apply, Expr.depth]

end InfixOp

end Grammar

end Stacklet
