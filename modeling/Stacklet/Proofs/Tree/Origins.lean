import Stacklet.Proofs.Tree.Soundness

/-! # Where the places of a tree come from

A place that a tree keeps is that of a token that was passed, and a syntax error is at a token that
was passed or looked at. So whatever holds of the places of all tokens of a stream holds of every
place in the tree or the error that the stream is parsed to.
-/

namespace Stacklet

variable {places : Span → Prop}

/-! ## Places that are kept -/

/-- Every place that is kept for one of some marks is allowed. -/
def KeptIn (places : Span → Prop) (marks : List Mark) : Prop :=
  ∀ mark ∈ marks, ∀ span, mark.place = some (some span) → places span

section

variable {mark : Mark} {front behind : List Mark}

@[simp] theorem keptIn_nil : KeptIn places [] :=
  List.forall_mem_nil _

theorem keptIn_cons : KeptIn places (mark :: behind) ↔
    (∀ span, mark.place = some (some span) → places span) ∧ KeptIn places behind :=
  List.forall_mem_cons

@[simp] theorem keptIn_append :
    KeptIn places (front ++ behind) ↔ KeptIn places front ∧ KeptIn places behind :=
  List.forall_mem_append

@[simp] theorem keptIn_symbol {symbol : Symbol} :
    KeptIn places (.symbol symbol :: behind) ↔ KeptIn places behind := by
  simp [keptIn_cons, Mark.symbol]

@[simp] theorem keptIn_keyword {word : Keyword} :
    KeptIn places (.keyword word :: behind) ↔ KeptIn places behind := by
  simp [keptIn_cons, Mark.keyword]

@[simp] theorem keptIn_placed {token : Token} {span : Span} :
    KeptIn places (.placed token span :: behind) ↔ places span ∧ KeptIn places behind := by
  simp [keptIn_cons, Mark.placed]

@[simp] theorem keptIn_name {name : Located String} :
    KeptIn places (.name name :: behind) ↔ places name.span ∧ KeptIn places behind :=
  keptIn_placed

@[simp] theorem keptIn_optional {token : Token} {span : Option Span} :
    KeptIn places (⟨token, some span⟩ :: behind) ↔
      (∀ place ∈ span, places place) ∧ KeptIn places behind := by
  simp [keptIn_cons]

end

@[simp] theorem keptIn_listed {entries : List (List Mark)} :
    KeptIn places (listed entries) ↔ ∀ entry ∈ entries, KeptIn places entry := by
  fun_induction listed entries with
  | case1 => simp
  | case2 entry => simp
  | case3 entry rest hrest ih => simp [ih]

@[simp] theorem keptIn_parameterMarks {parameters : List (Located String)} :
    KeptIn places (parameterMarks parameters) ↔ ∀ name ∈ parameters, places name.span := by
  simp [parameterMarks]

@[simp] theorem keptIn_exprs {exprs : List Expr} :
    (∀ marks ∈ Expr.marksOf exprs, KeptIn places marks) ↔
      ∀ expr ∈ exprs, KeptIn places expr.marks := by
  simp [Expr.marksOf_eq]

@[simp] theorem keptIn_stmts {body : List Stmt} :
    KeptIn places (Stmt.marksOf body) ↔ ∀ stmt ∈ body, KeptIn places stmt.marks := by
  induction body with
  | nil => simp [Stmt.marksOf]
  | cons stmt rest ih => simp [Stmt.marksOf, ih]

@[simp] theorem keptIn_functions {functions : List Function} :
    KeptIn places (Function.marksOf functions) ↔
      ∀ function ∈ functions, KeptIn places function.marks := by
  induction functions with
  | nil => simp [Function.marksOf]
  | cons function rest ih => simp [Function.marksOf, ih]

theorem keptIn_varDef {name : Located String} {value : Option Expr} (hname : places name.span)
    (hvalue : ∀ expr ∈ value, KeptIn places expr.marks) :
    KeptIn places (Stmt.varDef name value).marks := by
  cases value with
  | none => simpa [Stmt.marks] using hname
  | some expr => simpa [Stmt.marks] using ⟨hname, hvalue expr rfl⟩

theorem keptIn_ret {keyword : Span} {value : Option Expr} (hkeyword : places keyword)
    (hvalue : ∀ expr ∈ value, KeptIn places expr.marks) :
    KeptIn places (Stmt.ret keyword value).marks := by
  cases value with
  | none => simpa [Stmt.marks] using hkeyword
  | some expr => simpa [Stmt.marks] using ⟨hkeyword, hvalue expr rfl⟩

/-- A loop keeps the places of the parts that there are. -/
theorem keptIn_forLoop {initializer : Option Stmt} {condition increment : Option Expr}
    {body : Stmt} (hinitializer : ∀ stmt ∈ initializer, KeptIn places stmt.marks)
    (hcondition : ∀ expr ∈ condition, KeptIn places expr.marks)
    (hincrement : ∀ expr ∈ increment, KeptIn places expr.marks)
    (hbody : KeptIn places body.marks) :
    KeptIn places (Grammar.forLoop initializer condition increment body).marks := by
  have hdefault : KeptIn places (condition.getD (.literal (.bool true) none)).marks := by
    cases condition with
    | none => simp [Expr.marks]
    | some condition => exact hcondition condition rfl
  have hloop : KeptIn places (Grammar.forLoop none condition increment body).marks := by
    cases increment with
    | none => simpa [Grammar.forLoop, Stmt.marks] using ⟨hdefault, hbody⟩
    | some increment =>
        have hexpr := hincrement increment rfl
        simpa [Grammar.forLoop, Stmt.marks] using ⟨hdefault, hbody, hexpr⟩
  cases initializer with
  | none => exact hloop
  | some initializer =>
      have hfirst := hinitializer initializer rfl
      have hblock : KeptIn places
          (Stmt.block [initializer, Grammar.forLoop none condition increment body]).marks := by
        simpa [Stmt.marks] using ⟨hfirst, hloop⟩
      exact hblock

theorem keptIn_apply {left right : Expr} {span : Span} (op : Grammar.InfixOp)
    (hleft : KeptIn places left.marks) (hspan : places span) (hright : KeptIn places right.marks) :
    KeptIn places (op.apply left span right).marks := by
  rw [Grammar.InfixOp.marks_apply]
  simpa using ⟨hleft, hspan, hright⟩

mutual

/-- The place that stands for an expression is one that it keeps. -/
theorem Expr.place_of_keptIn {span : Span} : ∀ {expr : Expr}, KeptIn places expr.marks →
    expr.span? = some span → places span
  | .binary .., hkept, hspan | .logical .., hkept, hspan => by
      simp only [Expr.marks, keptIn_append, keptIn_placed] at hkept
      cases hspan
      exact hkept.2.1
  | .unary .., hkept, hspan | .var .., hkept, hspan | .assign .., hkept, hspan => by
      simp only [Expr.marks, keptIn_placed, keptIn_name] at hkept
      cases hspan
      exact hkept.1
  | .literal .., hkept, hspan => by
      simp only [Expr.marks, keptIn_optional] at hkept
      exact hkept.1 span hspan
  | .grouping inner, hkept, hspan => by
      simp only [Expr.marks, keptIn_symbol, keptIn_append] at hkept
      exact Expr.place_of_keptIn hkept.1 hspan
  | .call .., hkept, hspan => by
      simp only [Expr.marks, keptIn_append, keptIn_symbol, keptIn_placed] at hkept
      cases hspan
      exact hkept.2.2.1
  | .lambda [] body, hkept, hspan => by
      simp only [Expr.marks, keptIn_append, keptIn_symbol, keptIn_keyword] at hkept
      exact firstSpan?_of_keptIn hkept.2.1 hspan
  | .lambda (parameter :: _) body, hkept, hspan => by
      simp only [Expr.marks, keptIn_append, keptIn_keyword, keptIn_parameterMarks] at hkept
      cases hspan
      exact hkept.1 parameter List.mem_cons_self

/-- The place that stands for a statement is one that it keeps. -/
theorem Stmt.place_of_keptIn {span : Span} : ∀ {stmt : Stmt}, KeptIn places stmt.marks →
    stmt.span? = some span → places span
  | .expression expr, hkept, hspan | .print expr, hkept, hspan => by
      simp only [Stmt.marks, keptIn_append, keptIn_keyword] at hkept
      exact Expr.place_of_keptIn hkept.1 hspan
  | .varDef name none, hkept, hspan | .varDef name (some _), hkept, hspan => by
      simp only [Stmt.marks, keptIn_keyword, keptIn_name] at hkept
      cases hspan
      exact hkept.1
  | .block body, hkept, hspan => by
      simp only [Stmt.marks, keptIn_append, keptIn_symbol] at hkept
      exact firstSpan?_of_keptIn hkept.1 hspan
  | .ifThen condition _, hkept, hspan | .ifElse condition _ _, hkept, hspan
  | .whileLoop condition _, hkept, hspan => by
      simp only [Stmt.marks, keptIn_append, keptIn_keyword, keptIn_symbol] at hkept
      exact Expr.place_of_keptIn hkept.1 hspan
  | .funDef (.mk _ _ _), hkept, hspan | .classDef .., hkept, hspan => by
      simp only [Stmt.marks, Function.marks, keptIn_keyword, keptIn_name] at hkept
      cases hspan
      exact hkept.1
  | .ret _ none, hkept, hspan | .ret _ (some _), hkept, hspan => by
      simp only [Stmt.marks, keptIn_placed] at hkept
      cases hspan
      exact hkept.1

/-- The place of the first statement that has one is one that the statements keep. -/
theorem firstSpan?_of_keptIn {span : Span} : ∀ {body : List Stmt},
    KeptIn places (Stmt.marksOf body) → firstSpan? body = some span → places span
  | stmt :: rest, hkept, hspan => by
      simp only [Stmt.marksOf, keptIn_append] at hkept
      rw [firstSpan?] at hspan
      cases hstmt : stmt.span? with
      | some place =>
          rw [hstmt] at hspan
          cases hspan
          exact Stmt.place_of_keptIn hkept.1 hstmt
      | none =>
          rw [hstmt] at hspan
          exact firstSpan?_of_keptIn hkept.2 hspan

end

/-! ## Readers -/

/-- The tokens at a cursor stand in allowed places. -/
structure Cursor.StandsIn (places : Span → Prop) (cursor : Cursor) : Prop where
  rest : ∀ token ∈ cursor.rest, places token.span
  last : places cursor.last.span
  previous : places cursor.previous.span

namespace Cursor.StandsIn

variable {cursor : Cursor}

theorem peek (h : cursor.StandsIn places) : places cursor.peek.span := by
  obtain ⟨_ | ⟨token, rest⟩, last, previous⟩ := cursor
  · exact h.last
  · exact h.rest token List.mem_cons_self

theorem advance (h : cursor.StandsIn places) : cursor.advance.StandsIn places := by
  rw [Cursor.advance]
  split
  · exact ⟨h.rest, h.last, h.peek⟩
  · exact ⟨fun token htoken => h.rest token (List.mem_of_mem_tail htoken), h.last, h.peek⟩

end Cursor.StandsIn

/-- An outcome keeps to allowed places: the value is as it should be, or the error is at one. -/
def Outcome.StandsIn {α : Type} (places : Span → Prop) (good : α → Prop) : Outcome α → Prop
  | .done value reached => good value ∧ reached.StandsIn places
  | .failed error _ => places error.span
  | .unfinished => True

namespace Reader

variable {α β : Type}

/-- From allowed places, a reader keeps to them. -/
def StaysIn (read : Reader α) (places : Span → Prop) (good : α → Prop) : Prop :=
  ∀ cursor : Cursor, cursor.StandsIn places → (read cursor).StandsIn places good

variable {good : α → Prop} {result : β → Prop}

theorem staysIn_pure {value : α} (h : good value) : (pure value : Reader α).StaysIn places good :=
  fun _ hcursor => ⟨h, hcursor⟩

theorem staysIn_fail (error : SyntaxError) : (fail error : Reader α).StaysIn places good :=
  fun _ hcursor => hcursor.peek

theorem staysIn_failAt (error : SyntaxError) {span : Span} (h : places span) :
    (failAt error span : Reader α).StaysIn places good :=
  fun _ _ => h

theorem staysIn_unfinished : (unfinished : Reader α).StaysIn places good :=
  fun _ _ => trivial

theorem StaysIn.bind {first : Reader α} {next : α → Reader β} (h : first.StaysIn places good)
    (hnext : ∀ value, good value → (next value).StaysIn places result) :
    (first >>= next).StaysIn places result := by
  intro cursor hcursor
  have hfirst := h cursor hcursor
  rw [bind_apply]
  cases hdone : first cursor with
  | done value middle =>
      rw [hdone] at hfirst
      exact hnext value hfirst.1 middle hfirst.2
  | failed error recovery =>
      rw [hdone] at hfirst
      exact hfirst
  | unfinished => trivial

theorem StaysIn.map {read : Reader α} {f : α → β}
    (h : read.StaysIn places fun value => result (f value)) :
    (f <$> read).StaysIn places result :=
  StaysIn.bind h fun _ hvalue => staysIn_pure hvalue

theorem StaysIn.imp {read : Reader α} {weaker : α → Prop} (h : read.StaysIn places good)
    (himp : ∀ value, good value → weaker value) : read.StaysIn places weaker := by
  intro cursor hcursor
  have hread := h cursor hcursor
  cases hdone : read cursor with
  | done value reached =>
      rw [hdone] at hread
      exact ⟨himp value hread.1, hread.2⟩
  | failed error recovery =>
      rw [hdone] at hread
      exact hread
  | unfinished => trivial

/-! ### Single tokens -/

theorem staysIn_peek {next : Token → Reader β} (h : ∀ token, (next token).StaysIn places result) :
    (peek >>= next).StaysIn places result :=
  fun cursor hcursor => h cursor.peek.value cursor hcursor

theorem staysIn_isAhead {token : Token} {next : Bool → Reader β}
    (h : ∀ found, (next found).StaysIn places result) :
    (isAhead token >>= next).StaysIn places result :=
  fun cursor hcursor => h _ cursor hcursor

theorem staysIn_next : Reader.next.StaysIn places fun token => places token.span :=
  fun _ hcursor => ⟨hcursor.peek, hcursor.advance⟩

theorem staysIn_previousSpan : previousSpan.StaysIn places places :=
  fun _ hcursor => ⟨hcursor.previous, hcursor⟩

theorem staysIn_eat {token : Token} {next : Bool → Reader β}
    (h : ∀ eaten, (next eaten).StaysIn places result) :
    (eat token >>= next).StaysIn places result := by
  refine StaysIn.bind (fun cursor hcursor => ?_) fun eaten (_ : True) => h eaten
  rw [eat]
  split
  · exact ⟨trivial, hcursor.advance⟩
  · exact ⟨trivial, hcursor⟩

theorem staysIn_expectSymbol {symbol : Symbol} {expected : String} :
    (expectSymbol symbol expected).StaysIn places fun token => places token.span := by
  intro cursor hcursor
  rw [expectSymbol, expect]
  split
  · exact staysIn_next cursor hcursor
  · exact hcursor.peek

theorem staysIn_expectName {expected : String} :
    (expectName expected).StaysIn places fun name => places name.span := by
  intro cursor hcursor
  rw [expectName]
  split
  · exact ⟨hcursor.peek, hcursor.advance⟩
  · exact hcursor.peek

/-! ### Combinations -/

theorem staysIn_nested {read : Nat → Reader α} {room : Nat}
    (h : ∀ inner, (read inner).StaysIn places good) : (nested read room).StaysIn places good := by
  cases room with
  | zero => exact staysIn_fail .tooDeep
  | succ inner => exact h inner

/-- Recovery changes nothing of the error. -/
theorem staysIn_recovering {read : Reader α} (h : read.StaysIn places good) :
    (recovering read).StaysIn places good := by
  intro cursor hcursor
  have hread := h cursor hcursor
  rw [recovering]
  cases hdone : read cursor with
  | failed error recovery =>
      rw [hdone] at hread
      exact hread
  | _ =>
      rw [hdone] at hread
      exact hread

theorem staysIn_collect {stop : Cursor → Bool} {item : Reader α} (hitem : item.StaysIn places good)
    (fuel : Nat) {read : List α} (hread : ∀ value ∈ read, good value) :
    (collect stop item fuel read).StaysIn places fun values => ∀ value ∈ values, good value := by
  induction fuel generalizing read with
  | zero => exact staysIn_unfinished
  | succ fuel ih =>
      intro cursor hcursor
      by_cases hstop : stop cursor
      · rw [collect_of_stop item fuel read hstop]
        exact ⟨fun value hvalue => hread value (List.mem_reverse.mp hvalue), hcursor⟩
      · rw [collect_of_not_stop item fuel read hstop]
        refine hitem.bind (fun value hvalue => ?_) cursor hcursor
        exact ih (List.forall_mem_cons.mpr ⟨hvalue, hread⟩)

theorem staysIn_separated {listing : Listing} {item : Reader α} (hitem : item.StaysIn places good)
    (fuel : Nat) {read : List α} (hread : ∀ value ∈ read, good value) :
    (separated listing item fuel read).StaysIn places
      fun values => ∀ value ∈ values, good value := by
  induction fuel generalizing read with
  | zero => exact staysIn_unfinished
  | succ fuel ih =>
      rw [separated]
      split
      · exact staysIn_fail (.tooMany listing)
      · refine hitem.bind fun value hvalue => staysIn_eat fun comma => ?_
        have hcons := List.forall_mem_cons.mpr ⟨hvalue, hread⟩
        split
        · exact ih hcons
        · exact staysIn_pure fun value hvalue => hcons value (List.mem_reverse.mp hvalue)

/-- A listing in parentheses may be empty. -/
theorem staysIn_listing {listing : Listing} {item : Reader α} {fuel : Nat}
    {next : List α → Reader β} (hitem : item.StaysIn places good)
    (hnext : ∀ values, (∀ value ∈ values, good value) → (next values).StaysIn places result) :
    (isAhead (.symbol .closeParen) >>= fun empty =>
      if empty then pure [] >>= next
      else separated listing item fuel [] >>= next).StaysIn places result := by
  refine staysIn_isAhead fun empty => ?_
  split
  · exact hnext [] (List.forall_mem_nil _)
  · exact (staysIn_separated hitem fuel (List.forall_mem_nil _)).bind hnext

end Reader

/-! ## Rules -/

namespace Grammar

open Reader

/-- The readers through which the grammar is recursive keep to allowed places. -/
structure Scope.StaysIn (scope : Scope) (places : Span → Prop) : Prop where
  declaration (room : Nat) :
    (scope.declaration room).StaysIn places fun stmt => KeptIn places stmt.marks
  statement (room : Nat) :
    (scope.statement room).StaysIn places fun stmt => KeptIn places stmt.marks
  expression (room : Nat) :
    (scope.expression room).StaysIn places fun expr => KeptIn places expr.marks
  operand (room : Nat) :
    (scope.operand room).StaysIn places fun expr => KeptIn places expr.marks

variable {scope : Scope} {room : Nat}

/-! ### Expressions -/

theorem staysIn_chain {level : Level} {operand : Reader Expr}
    (hoperand : operand.StaysIn places fun expr => KeptIn places expr.marks) (fuel : Nat)
    {left : Expr} (hleft : KeptIn places left.marks) :
    (chain level operand fuel left).StaysIn places fun expr => KeptIn places expr.marks := by
  induction fuel generalizing left with
  | zero => exact staysIn_unfinished
  | succ fuel ih =>
      rw [chain]
      refine staysIn_peek fun token => ?_
      split
      next => exact staysIn_pure hleft
      next op _ =>
        refine staysIn_next.bind fun token htoken => hoperand.bind fun right hright => ih ?_
        exact keptIn_apply op hleft htoken hright

theorem staysIn_infixed (hscope : scope.StaysIn places) (levels : List Level) :
    (infixed scope room levels).StaysIn places fun expr => KeptIn places expr.marks := by
  induction levels with
  | nil => exact hscope.operand room
  | cons level tighter ih => exact ih.bind fun left hleft => staysIn_chain ih scope.fuel hleft

theorem staysIn_assignment (hscope : scope.StaysIn places) :
    (assignment scope room).StaysIn places fun expr => KeptIn places expr.marks := by
  rw [assignment]
  refine (staysIn_infixed hscope Level.all).bind fun target htarget => staysIn_eat fun assigns => ?_
  split
  · refine staysIn_previousSpan.bind fun equals hequals => ?_
    refine (hscope.expression room).bind fun value hvalue => ?_
    split
    next name =>
      have hname : places name.span := by simpa [Expr.marks] using htarget
      exact staysIn_pure (by simpa [Expr.marks] using ⟨hname, hvalue⟩)
    next => exact staysIn_failAt .invalidAssignmentTarget hequals
  · exact staysIn_pure htarget

theorem staysIn_parameters :
    (parameters scope).StaysIn places fun names => ∀ name ∈ names, places name.span := by
  rw [parameters]
  refine staysIn_listing staysIn_expectName fun names hnames => ?_
  exact staysIn_expectSymbol.bind fun _ _ => staysIn_pure hnames

theorem staysIn_block (hscope : scope.StaysIn places) :
    (block scope room).StaysIn places fun body => ∀ stmt ∈ body, KeptIn places stmt.marks := by
  rw [block]
  refine (staysIn_collect (hscope.declaration room) scope.fuel (List.forall_mem_nil _)).bind ?_
  intro body hbody
  exact staysIn_expectSymbol.bind fun _ _ => staysIn_pure hbody

theorem staysIn_lambda (hscope : scope.StaysIn places) :
    (lambda scope room).StaysIn places fun expr => KeptIn places expr.marks := by
  rw [lambda]
  refine staysIn_expectSymbol.bind fun _ _ => staysIn_parameters.bind fun names hnames => ?_
  refine staysIn_expectSymbol.bind fun _ _ => (staysIn_block hscope).bind fun body hbody => ?_
  exact staysIn_pure (by simpa [Expr.marks] using ⟨hnames, hbody⟩)

theorem staysIn_primary (hscope : scope.StaysIn places) :
    (primary scope room).StaysIn places fun expr => KeptIn places expr.marks := by
  rw [primary]
  refine staysIn_peek fun token => ?_
  split
  next =>
    refine staysIn_next.bind fun read hread => staysIn_pure ?_
    simpa [Expr.marks] using hread
  next =>
    split
    next =>
      refine staysIn_next.bind fun read hread => staysIn_pure ?_
      simpa [Expr.marks] using hread
    next =>
      refine staysIn_next.bind fun _ _ => (hscope.expression room).bind fun inner hinner => ?_
      refine staysIn_expectSymbol.bind fun _ _ => staysIn_pure ?_
      simpa [Expr.marks] using hinner
    next => exact staysIn_fail (.expectedExpr token)

theorem staysIn_arguments (hscope : scope.StaysIn places) :
    (arguments scope room).StaysIn places fun (values, paren) =>
      (∀ value ∈ values, KeptIn places value.marks) ∧ places paren := by
  rw [arguments]
  refine staysIn_listing (hscope.expression room) fun values hvalues => ?_
  exact staysIn_expectSymbol.bind fun paren hparen => staysIn_pure ⟨hvalues, hparen⟩

theorem staysIn_calls (hscope : scope.StaysIn places) (fuel : Nat) {callee : Expr}
    (hcallee : KeptIn places callee.marks) :
    (calls scope room fuel callee).StaysIn places fun expr => KeptIn places expr.marks := by
  induction fuel generalizing callee with
  | zero => exact staysIn_unfinished
  | succ fuel ih =>
      rw [calls]
      refine staysIn_eat fun called => ?_
      split
      · refine (staysIn_arguments hscope).bind ?_
        rintro ⟨values, paren⟩ ⟨hvalues, hparen⟩
        exact ih (by simpa [Expr.marks] using ⟨hcallee, hvalues, hparen⟩)
      · exact staysIn_pure hcallee

theorem staysIn_operand (hscope : scope.StaysIn places) :
    (operand scope room).StaysIn places fun expr => KeptIn places expr.marks := by
  rw [operand]
  refine staysIn_eat fun function => ?_
  split
  · exact staysIn_lambda hscope
  · refine staysIn_peek fun token => ?_
    split
    next =>
      refine staysIn_next.bind fun token htoken => ?_
      refine (staysIn_nested hscope.operand).bind fun right hright => staysIn_pure ?_
      simpa [Expr.marks] using ⟨htoken, hright⟩
    next =>
      exact (staysIn_primary hscope).bind fun callee hcallee =>
        staysIn_calls hscope scope.fuel hcallee

/-! ### Statements -/

theorem staysIn_someExpression (hscope : scope.StaysIn places) :
    (some <$> scope.expression room).StaysIn places fun value =>
      ∀ expr ∈ value, KeptIn places expr.marks := by
  refine ((hscope.expression room).imp fun expr hexpr => ?_).map
  rintro _ ⟨⟩
  exact hexpr

theorem staysIn_clause (hscope : scope.StaysIn places) {stop : Symbol} :
    (clause scope room stop).StaysIn places fun value =>
      ∀ expr ∈ value, KeptIn places expr.marks := by
  rw [clause]
  refine staysIn_isAhead fun missing => ?_
  split
  · exact staysIn_pure (by simp)
  · exact staysIn_someExpression hscope

theorem staysIn_expressionStatement (hscope : scope.StaysIn places) :
    (expressionStatement scope room).StaysIn places fun stmt => KeptIn places stmt.marks := by
  rw [expressionStatement]
  refine (hscope.expression room).bind fun expr hexpr => ?_
  refine staysIn_expectSymbol.bind fun _ _ => staysIn_pure ?_
  simpa [Stmt.marks] using hexpr

theorem staysIn_varDefinition (hscope : scope.StaysIn places) :
    (varDefinition scope room).StaysIn places fun stmt => KeptIn places stmt.marks := by
  rw [varDefinition]
  refine staysIn_expectName.bind fun name hname => staysIn_eat fun assigned => ?_
  split
  · refine (staysIn_someExpression hscope).bind fun value hvalue => ?_
    exact staysIn_expectSymbol.bind fun _ _ => staysIn_pure (keptIn_varDef hname hvalue)
  · exact staysIn_expectSymbol.bind fun _ _ => staysIn_pure (keptIn_varDef hname (by simp))

theorem staysIn_forInitializer (hscope : scope.StaysIn places) :
    (forInitializer scope room).StaysIn places fun initializer =>
      ∀ stmt ∈ initializer, KeptIn places stmt.marks := by
  have hsome {read : Reader Stmt} (h : read.StaysIn places fun stmt => KeptIn places stmt.marks) :
      (some <$> read).StaysIn places fun initializer =>
        ∀ stmt ∈ initializer, KeptIn places stmt.marks := by
    refine (h.imp fun stmt hstmt => ?_).map
    rintro _ ⟨⟩
    exact hstmt
  rw [forInitializer]
  refine staysIn_eat fun missing => ?_
  split
  · exact staysIn_pure (by simp)
  · refine staysIn_eat fun declared => ?_
    split
    · exact hsome (staysIn_varDefinition hscope)
    · exact hsome (staysIn_expressionStatement hscope)

theorem staysIn_forStatement (hscope : scope.StaysIn places) :
    (forStatement scope room).StaysIn places fun stmt => KeptIn places stmt.marks := by
  rw [forStatement]
  refine staysIn_expectSymbol.bind fun _ _ => ?_
  refine (staysIn_forInitializer hscope).bind fun initializer hinitializer => ?_
  refine (staysIn_clause hscope).bind fun condition hcondition => ?_
  refine staysIn_expectSymbol.bind fun _ _ => ?_
  refine (staysIn_clause hscope).bind fun increment hincrement => ?_
  refine staysIn_expectSymbol.bind fun _ _ => (hscope.statement room).bind fun body hbody => ?_
  exact staysIn_pure (keptIn_forLoop hinitializer hcondition hincrement hbody)

theorem staysIn_ifStatement (hscope : scope.StaysIn places) :
    (ifStatement scope room).StaysIn places fun stmt => KeptIn places stmt.marks := by
  rw [ifStatement]
  refine staysIn_expectSymbol.bind fun _ _ => ?_
  refine (hscope.expression room).bind fun condition hcondition => ?_
  refine staysIn_expectSymbol.bind fun _ _ => ?_
  refine (hscope.statement room).bind fun thenBranch hthen => staysIn_eat fun other => ?_
  split
  · refine (hscope.statement room).bind fun elseBranch helse => staysIn_pure ?_
    simpa [Stmt.marks] using ⟨hcondition, hthen, helse⟩
  · exact staysIn_pure (by simpa [Stmt.marks] using ⟨hcondition, hthen⟩)

theorem staysIn_printStatement (hscope : scope.StaysIn places) :
    (printStatement scope room).StaysIn places fun stmt => KeptIn places stmt.marks := by
  rw [printStatement]
  refine (hscope.expression room).bind fun expr hexpr => ?_
  refine staysIn_expectSymbol.bind fun _ _ => staysIn_pure ?_
  simpa [Stmt.marks] using hexpr

theorem staysIn_returnStatement (hscope : scope.StaysIn places) :
    (returnStatement scope room).StaysIn places fun stmt => KeptIn places stmt.marks := by
  rw [returnStatement]
  refine staysIn_previousSpan.bind fun keyword hkeyword => ?_
  refine (staysIn_clause hscope).bind fun value hvalue => ?_
  exact staysIn_expectSymbol.bind fun _ _ => staysIn_pure (keptIn_ret hkeyword hvalue)

theorem staysIn_whileStatement (hscope : scope.StaysIn places) :
    (whileStatement scope room).StaysIn places fun stmt => KeptIn places stmt.marks := by
  rw [whileStatement]
  refine staysIn_expectSymbol.bind fun _ _ => ?_
  refine (hscope.expression room).bind fun condition hcondition => ?_
  refine staysIn_expectSymbol.bind fun _ _ => (hscope.statement room).bind fun body hbody => ?_
  exact staysIn_pure (by simpa [Stmt.marks] using ⟨hcondition, hbody⟩)

theorem staysIn_statement (hscope : scope.StaysIn places) :
    (statement scope room).StaysIn places fun stmt => KeptIn places stmt.marks := by
  rw [statement]
  refine staysIn_eat fun isFor => ?_
  split
  · exact staysIn_forStatement hscope
  refine staysIn_eat fun isIf => ?_
  split
  · exact staysIn_ifStatement hscope
  refine staysIn_eat fun isPrint => ?_
  split
  · exact staysIn_printStatement hscope
  refine staysIn_eat fun isReturn => ?_
  split
  · exact staysIn_returnStatement hscope
  refine staysIn_eat fun isWhile => ?_
  split
  · exact staysIn_whileStatement hscope
  refine staysIn_eat fun isBlock => ?_
  split
  · refine ((staysIn_block hscope).imp fun body hbody => ?_).map
    simpa [Stmt.marks] using hbody
  · exact staysIn_expressionStatement hscope

/-! ### Declarations -/

theorem staysIn_function (hscope : scope.StaysIn places) (kind : String) :
    (function scope room kind).StaysIn places fun function => KeptIn places function.marks := by
  rw [function]
  refine staysIn_expectName.bind fun name hname => staysIn_expectSymbol.bind fun _ _ => ?_
  refine staysIn_parameters.bind fun names hnames => staysIn_expectSymbol.bind fun _ _ => ?_
  refine (staysIn_block hscope).bind fun body hbody => staysIn_pure ?_
  simpa [Function.marks] using ⟨hname, hnames, hbody⟩

theorem staysIn_classDefinition (hscope : scope.StaysIn places) :
    (classDefinition scope room).StaysIn places fun stmt => KeptIn places stmt.marks := by
  rw [classDefinition]
  refine staysIn_expectName.bind fun name hname => staysIn_expectSymbol.bind fun _ _ => ?_
  refine (staysIn_collect (staysIn_function hscope "method") scope.fuel
    (List.forall_mem_nil _)).bind fun methods hmethods => ?_
  refine staysIn_expectSymbol.bind fun _ _ => staysIn_pure ?_
  simpa [Stmt.marks] using ⟨hname, hmethods⟩

theorem staysIn_declaration (hscope : scope.StaysIn places) :
    (declaration scope room).StaysIn places fun stmt => KeptIn places stmt.marks := by
  rw [declaration]
  refine staysIn_recovering (staysIn_eat fun isClass => ?_)
  split
  · exact staysIn_classDefinition hscope
  refine staysIn_eat fun isFunction => ?_
  split
  · refine ((staysIn_function hscope "function").imp fun function hfunction => ?_).map
    simpa [Stmt.marks] using hfunction
  refine staysIn_eat fun isVariable => ?_
  split
  · exact staysIn_varDefinition hscope
  · exact hscope.statement room

/-! ### The knot -/

theorem scopeWith_staysIn (fuel : Nat) : (scopeWith fuel).StaysIn places := by
  induction fuel with
  | zero =>
      rw [scopeWith_zero]
      exact ⟨fun _ => staysIn_unfinished, fun _ => staysIn_unfinished, fun _ => staysIn_unfinished,
        fun _ => staysIn_unfinished⟩
  | succ fuel ih =>
      rw [scopeWith_succ]
      exact ⟨fun _ => staysIn_declaration ih, fun _ => staysIn_nested fun _ => staysIn_statement ih,
        fun _ => staysIn_nested fun _ => staysIn_assignment ih, fun _ => staysIn_operand ih⟩

end Grammar

/-! ## Parsing -/

/-- Where a stream of tokens only has allowed places, so has the tree or the error that it is parsed
to. -/
theorem parse_staysIn {tokens : List (Located Token)} (h : ∀ token ∈ tokens, places token.span) :
    (∀ tree, parse tokens = .ok tree → KeptIn places (Stmt.marksOf tree)) ∧
      ∀ failure, parse tokens = .error failure → places failure.error.span := by
  cases hlast : tokens.getLast? with
  | none => simp [parse, hlast]
  | some last =>
      have hplace : places last.span := h last (List.mem_of_getLast? hlast)
      have hscope : (Grammar.scopeWith (Grammar.fuelFor tokens.length)).StaysIn places :=
        Grammar.scopeWith_staysIn _
      have houtcome : (Grammar.program (Grammar.fuelFor tokens.length)
          ⟨tokens, last, last⟩).StandsIn places fun tree => ∀ stmt ∈ tree,
            KeptIn places stmt.marks :=
        Reader.staysIn_collect (hscope.declaration maxDepth) _ (List.forall_mem_nil _) _
          ⟨h, hplace, hplace⟩
      simp only [parse, hlast]
      cases hdone : Grammar.program (Grammar.fuelFor tokens.length) ⟨tokens, last, last⟩ with
      | done statements reached =>
          rw [hdone] at houtcome
          simpa using houtcome.1
      | failed error recovery =>
          rw [hdone] at houtcome
          have herror : places error.span := houtcome
          simpa using herror
      | unfinished => simpa using hplace

end Stacklet
