import Stacklet.Proofs.Tree.Nodes
import Stacklet.Proofs.Tree.Soundness

/-! # Derivations

The grammar as a judgement on trees: what may stand in which place, and how much room for nesting
is left there. Nothing is said of tokens, so loops that are written with `for` take part, as the
trees that they stand for. Whatever is read from any stream of tokens is derived; facts about all
trees that are ever read follow by induction on derivations.
-/

namespace Stacklet

namespace Grammar

/-- Where something may stand. Each place has the room for nesting that is left in it. -/
inductive Place where
  /-- Where an expression has to be at least as tight as given. -/
  | operand (tightness room : Nat)
  /-- Where any expression may stand. -/
  | expression (room : Nat)
  /-- What a loop written with `for` begins with. -/
  | initializer (room : Nat)
  | statement (room : Nat)
  | declaration (room : Nat)
deriving DecidableEq, Repr

/-- What the grammar lets stand in a place. A full expression, an operand behind a unary operator
and a statement each take up a level of nesting. -/
inductive Derives : Place → Node → Prop
  | literal {room : Nat} (value : Literal) (span : Option Span) :
      Derives (.operand 7 room) (.expr (.literal value span))
  | var {room : Nat} (name : Located String) : Derives (.operand 7 room) (.expr (.var name))
  | grouping {room : Nat} {inner : Expr} (hinner : Derives (.expression room) (.expr inner)) :
      Derives (.operand 7 room) (.expr (.grouping inner))
  | call {room : Nat} {callee : Expr} {arguments : List Expr} (paren : Span)
      (hcallee : Derives (.operand 7 room) (.expr callee))
      (harguments : ∀ argument ∈ arguments, Derives (.expression room) (.expr argument)) :
      Derives (.operand 7 room) (.expr (.call callee paren arguments))
  | lambda {room : Nat} {body : List Stmt} (parameters : List (Located String))
      (hbody : ∀ stmt ∈ body, Derives (.declaration room) (.stmt stmt)) :
      Derives (.operand 7 room) (.expr (.lambda parameters body))
  | unary {room : Nat} {right : Expr} (op : Located UnaryOp)
      (hright : Derives (.operand 7 room) (.expr right)) :
      Derives (.operand 7 (room + 1)) (.expr (.unary op right))
  | apply {room : Nat} {left right : Expr} (op : InfixOp) (span : Span)
      (hleft : Derives (.operand op.rank room) (.expr left))
      (hright : Derives (.operand (op.rank + 1) room) (.expr right)) :
      Derives (.operand op.rank room) (.expr (op.apply left span right))
  | looser {tightness room : Nat} {expr : Expr}
      (h : Derives (.operand (tightness + 1) room) (.expr expr)) :
      Derives (.operand tightness room) (.expr expr)
  | assign {room : Nat} {value : Expr} (name : Located String)
      (hvalue : Derives (.expression room) (.expr value)) :
      Derives (.operand 0 room) (.expr (.assign name value))
  | full {room : Nat} {expr : Expr} (h : Derives (.operand 0 room) (.expr expr)) :
      Derives (.expression (room + 1)) (.expr expr)
  | expression {room : Nat} {expr : Expr} (h : Derives (.expression room) (.expr expr)) :
      Derives (.statement (room + 1)) (.stmt (.expression expr))
  | print {room : Nat} {expr : Expr} (h : Derives (.expression room) (.expr expr)) :
      Derives (.statement (room + 1)) (.stmt (.print expr))
  | ret {room : Nat} {value : Option Expr} (keyword : Span)
      (hvalue : ∀ expr ∈ value, Derives (.expression room) (.expr expr)) :
      Derives (.statement (room + 1)) (.stmt (.ret keyword value))
  | block {room : Nat} {body : List Stmt}
      (hbody : ∀ stmt ∈ body, Derives (.declaration room) (.stmt stmt)) :
      Derives (.statement (room + 1)) (.stmt (.block body))
  | ifThen {room : Nat} {condition : Expr} {thenBranch : Stmt}
      (hcondition : Derives (.expression room) (.expr condition))
      (hthen : Derives (.statement room) (.stmt thenBranch)) :
      Derives (.statement (room + 1)) (.stmt (.ifThen condition thenBranch))
  | ifElse {room : Nat} {condition : Expr} {thenBranch elseBranch : Stmt}
      (hcondition : Derives (.expression room) (.expr condition))
      (hthen : Derives (.statement room) (.stmt thenBranch))
      (helse : Derives (.statement room) (.stmt elseBranch)) :
      Derives (.statement (room + 1)) (.stmt (.ifElse condition thenBranch elseBranch))
  | whileLoop {room : Nat} {condition : Expr} {body : Stmt}
      (hcondition : Derives (.expression room) (.expr condition))
      (hbody : Derives (.statement room) (.stmt body)) :
      Derives (.statement (room + 1)) (.stmt (.whileLoop condition body))
  | forLoop {room : Nat} {initializer : Option Stmt} {condition increment : Option Expr}
      {body : Stmt} (hinitializer : ∀ stmt ∈ initializer, Derives (.initializer room) (.stmt stmt))
      (hcondition : ∀ expr ∈ condition, Derives (.expression room) (.expr expr))
      (hincrement : ∀ expr ∈ increment, Derives (.expression room) (.expr expr))
      (hbody : Derives (.statement room) (.stmt body)) :
      Derives (.statement (room + 1)) (.stmt (forLoop initializer condition increment body))
  | initialExpression {room : Nat} {expr : Expr} (h : Derives (.expression room) (.expr expr)) :
      Derives (.initializer room) (.stmt (.expression expr))
  | initialVar {room : Nat} {value : Option Expr} (name : Located String)
      (hvalue : ∀ expr ∈ value, Derives (.expression room) (.expr expr)) :
      Derives (.initializer room) (.stmt (.varDef name value))
  | varDef {room : Nat} {value : Option Expr} (name : Located String)
      (hvalue : ∀ expr ∈ value, Derives (.expression room) (.expr expr)) :
      Derives (.declaration room) (.stmt (.varDef name value))
  | funDef {room : Nat} {function : Function}
      (hbody : ∀ stmt ∈ function.body, Derives (.declaration room) (.stmt stmt)) :
      Derives (.declaration room) (.stmt (.funDef function))
  | classDef {room : Nat} {methods : List Function} (name : Located String)
      (hmethods : ∀ function ∈ methods, ∀ stmt ∈ function.body,
        Derives (.declaration room) (.stmt stmt)) :
      Derives (.declaration room) (.stmt (.classDef name methods))
  | statement {room : Nat} {stmt : Stmt} (h : Derives (.statement room) (.stmt stmt)) :
      Derives (.declaration room) (.stmt stmt)

theorem Derives.room_pos {room : Nat} {node : Node} (h : Derives (.expression room) node) :
    0 < room := by
  cases h
  exact Nat.succ_pos _

/-! ## Expressions within trees -/

/-- How many levels of nesting an expression within what stands in a place can be on. -/
def Place.levels : Place → Nat
  | .operand _ room => room + 1
  | .expression room | .initializer room | .statement room | .declaration room => room

/-- Every expression among some nodes is derived on one of some levels of nesting. -/
def Covers (levels : Nat) (nodes : List Node) : Prop :=
  ∀ expr, .expr expr ∈ nodes →
    ∃ tightness room, Derives (.operand tightness room) (.expr expr) ∧ room < levels

variable {levels : Nat} {front behind : List Node}

theorem covers_nil : Covers levels [] := by
  rintro _ ⟨⟩

theorem Covers.append (hfront : Covers levels front) (hbehind : Covers levels behind) :
    Covers levels (front ++ behind) := by
  intro expr hexpr
  rcases List.mem_append.mp hexpr with hexpr | hexpr
  · exact hfront expr hexpr
  · exact hbehind expr hexpr

theorem Covers.mono {more : Nat} (h : Covers levels front) (hle : levels ≤ more) :
    Covers more front := by
  intro expr hexpr
  obtain ⟨tightness, room, hderives, hroom⟩ := h expr hexpr
  exact ⟨tightness, room, hderives, hroom.trans_le hle⟩

theorem Covers.stmt (h : Covers levels front) (stmt : Stmt) :
    Covers levels (.stmt stmt :: front) := by
  intro expr hexpr
  rcases List.mem_cons.mp hexpr with heq | hexpr
  · cases heq
  · exact h expr hexpr

/-- What is derived is covered if what is within it is. -/
theorem Derives.covers {tightness room : Nat} {expr : Expr}
    (h : Derives (.operand tightness room) (.expr expr))
    (hwithin : Covers (room + 1) expr.within) :
    Covers (room + 1) (.expr expr :: expr.within) := by
  intro other hother
  rcases List.mem_cons.mp hother with heq | hother
  · cases heq
    exact ⟨tightness, room, h, Nat.lt_succ_self room⟩
  · exact hwithin other hother

theorem covers_exprs {exprs : List Expr}
    (h : ∀ expr ∈ exprs, Covers levels (.expr expr :: expr.within)) :
    Covers levels (Expr.nodesOf exprs) := by
  induction exprs with
  | nil => exact covers_nil
  | cons expr rest ih =>
      obtain ⟨hexpr, hrest⟩ := List.forall_mem_cons.mp h
      exact hexpr.append (ih hrest)

theorem covers_stmts {statements : List Stmt}
    (h : ∀ stmt ∈ statements, Covers levels (.stmt stmt :: stmt.within)) :
    Covers levels (Stmt.nodesOf statements) := by
  induction statements with
  | nil => exact covers_nil
  | cons stmt rest ih =>
      obtain ⟨hstmt, hrest⟩ := List.forall_mem_cons.mp h
      exact hstmt.append (ih hrest)

theorem covers_function {function : Function}
    (h : ∀ stmt ∈ function.body, Covers levels (.stmt stmt :: stmt.within)) :
    Covers levels function.within := by
  obtain ⟨name, parameters, body⟩ := function
  exact covers_stmts h

theorem covers_functions {functions : List Function}
    (h : ∀ function ∈ functions, Covers levels function.within) :
    Covers levels (Function.nodesOf functions) := by
  induction functions with
  | nil => exact covers_nil
  | cons function rest ih =>
      obtain ⟨hfunction, hrest⟩ := List.forall_mem_cons.mp h
      exact hfunction.append (ih hrest)

theorem covers_forLoop {initializer : Option Stmt} {condition increment : Option Expr}
    {body : Stmt} (hlevels : 0 < levels)
    (hinitializer : ∀ stmt ∈ initializer, Covers levels (.stmt stmt :: stmt.within))
    (hcondition : ∀ expr ∈ condition, Covers levels (.expr expr :: expr.within))
    (hincrement : ∀ expr ∈ increment, Covers levels (.expr expr :: expr.within))
    (hbody : Covers levels (.stmt body :: body.within)) :
    Covers levels (forLoop initializer condition increment body).within := by
  have hdefault : Covers levels (.expr (condition.getD (.literal (.bool true) none)) ::
      (condition.getD (.literal (.bool true) none)).within) := by
    cases condition with
    | none =>
        have hliteral : Derives (.operand 7 0) (.expr (.literal (.bool true) none)) := .literal _ _
        exact (hliteral.covers covers_nil).mono hlevels
    | some condition => exact hcondition condition rfl
  have hwhile : ∀ inner : Stmt, Covers levels (.stmt inner :: inner.within) →
      Covers levels (Stmt.whileLoop (condition.getD (.literal (.bool true) none)) inner).within :=
    fun inner hinner => hdefault.append hinner
  have hloop : Covers levels (forLoop none condition increment body).within := by
    cases increment with
    | none => exact hwhile body hbody
    | some increment =>
        have hblock : Covers levels (Stmt.block [body, .expression increment]).within :=
          hbody.append (((hincrement increment rfl).stmt _).append covers_nil)
        exact hwhile _ (hblock.stmt _)
  cases initializer with
  | none => exact hloop
  | some initializer =>
      exact (hinitializer initializer rfl).append ((hloop.stmt _).append covers_nil)

theorem covers_optional {value : Option Expr}
    (h : ∀ expr ∈ value, Covers levels (.expr expr :: expr.within)) {build : Option Expr → Stmt}
    (hnone : (build none).within = [])
    (hsome : ∀ expr, (build (some expr)).within = .expr expr :: expr.within) :
    Covers levels (build value).within := by
  cases value with
  | none => exact hnone ▸ covers_nil
  | some expr => exact hsome expr ▸ h expr rfl

/-- Every expression within something derived is derived itself, on fewer levels of nesting than
there are in the place. -/
theorem Derives.covers_nodes {place : Place} {node : Node} (h : Derives place node) :
    Covers place.levels (node :: node.within) := by
  induction h with
  | literal value span => exact (Derives.literal value span).covers covers_nil
  | var name => exact (Derives.var name).covers covers_nil
  | grouping hinner ih => exact (Derives.grouping hinner).covers (ih.mono (Nat.le_succ _))
  | assign name hvalue ih => exact (Derives.assign name hvalue).covers (ih.mono (Nat.le_succ _))
  | call paren hcallee harguments ihCallee ihArguments =>
      refine (Derives.call paren hcallee harguments).covers (ihCallee.append (covers_exprs ?_))
      intro argument hargument
      exact (ihArguments argument hargument).mono (Nat.le_succ _)
  | lambda parameters hbody ih =>
      refine (Derives.lambda parameters hbody).covers (covers_stmts fun stmt hstmt => ?_)
      exact (ih stmt hstmt).mono (Nat.le_succ _)
  | unary op hright ih => exact (Derives.unary op hright).covers (ih.mono (Nat.le_succ _))
  | apply op span hleft hright ihLeft ihRight =>
      have hoperands := ihLeft.append ihRight
      cases op <;> exact (Derives.apply _ span hleft hright).covers hoperands
  | looser _ ih | full _ ih | statement _ ih => exact ih
  | expression _ ih | print _ ih => exact (ih.mono (Nat.le_succ _)).stmt _
  | ret _ _ ih =>
      refine (covers_optional (fun expr hexpr => ?_) rfl fun _ => rfl).stmt _
      exact (ih expr hexpr).mono (Nat.le_succ _)
  | block _ ih =>
      exact (covers_stmts fun stmt hstmt => (ih stmt hstmt).mono (Nat.le_succ _)).stmt _
  | ifThen _ _ ihCondition ihThen | whileLoop _ _ ihCondition ihThen =>
      exact ((ihCondition.append ihThen).mono (Nat.le_succ _)).stmt _
  | ifElse _ _ _ ihCondition ihThen ihElse =>
      exact ((ihCondition.append (ihThen.append ihElse)).mono (Nat.le_succ _)).stmt _
  | forLoop _ _ _ _ ihInitializer ihCondition ihIncrement ihBody =>
      refine (covers_forLoop (Nat.succ_pos _) (fun stmt hstmt => ?_) (fun expr hexpr => ?_)
        (fun expr hexpr => ?_) (ihBody.mono (Nat.le_succ _))).stmt _
      · exact (ihInitializer stmt hstmt).mono (Nat.le_succ _)
      · exact (ihCondition expr hexpr).mono (Nat.le_succ _)
      · exact (ihIncrement expr hexpr).mono (Nat.le_succ _)
  | initialExpression _ ih => exact ih.stmt _
  | initialVar _ _ ih | varDef _ _ ih => exact (covers_optional ih rfl fun _ => rfl).stmt _
  | funDef _ ih => exact (covers_function ih).stmt _
  | classDef _ _ ih =>
      have hmethods := covers_functions fun function hfunction =>
        covers_function (ih function hfunction)
      exact hmethods.stmt _

end Grammar

/-! ## Readers -/

namespace Reader

variable {α β : Type}

/-- Whatever the reader gives, anywhere, has the property. -/
def Yields (read : Reader α) (good : α → Prop) : Prop :=
  ∀ cursor value after, read cursor = .done value after → good value

variable {good : α → Prop} {result : β → Prop}

theorem yields_pure {value : α} (h : good value) : (pure value : Reader α).Yields good := by
  rintro _ _ _ ⟨⟩
  exact h

theorem yields_pure_bind {value : α} {next : α → Reader β} (h : (next value).Yields result) :
    (pure value >>= next).Yields result :=
  h

theorem yields_fail (error : SyntaxError) : (fail error : Reader α).Yields good := by
  rintro _ _ _ ⟨⟩

theorem yields_failAt (error : SyntaxError) (span : Span) :
    (failAt error span : Reader α).Yields good := by
  rintro _ _ _ ⟨⟩

theorem yields_unfinished : (unfinished : Reader α).Yields good := by
  rintro _ _ _ ⟨⟩

theorem Yields.bind {first : Reader α} {next : α → Reader β} (h : first.Yields good)
    (hnext : ∀ value, good value → (next value).Yields result) :
    (first >>= next).Yields result := by
  intro cursor value after hdone
  rw [bind_apply] at hdone
  split at hdone
  next first middle hfirst => exact hnext first (h _ _ _ hfirst) middle value after hdone
  next => cases hdone
  next => cases hdone

/-- What a reader yields does not depend on a token that is passed or looked at before. -/
theorem yields_behind {first : Reader α} {next : α → Reader β}
    (h : ∀ value, (next value).Yields result) : (first >>= next).Yields result :=
  Yields.bind (fun _ _ _ _ => trivial) fun value (_ : True) => h value

theorem Yields.map {read : Reader α} {f : α → β} (h : read.Yields fun value => result (f value)) :
    (f <$> read).Yields result :=
  Yields.bind h fun _ hvalue => yields_pure hvalue

theorem yields_nested {read : Nat → Reader α} {room : Nat}
    (h : ∀ inner, room = inner + 1 → (read inner).Yields good) :
    (nested read room).Yields good := by
  cases room with
  | zero => exact yields_fail .tooDeep
  | succ inner => exact h inner rfl

theorem yields_recovering {read : Reader α} (h : read.Yields good) :
    (recovering read).Yields good := by
  intro cursor value after hdone
  rw [recovering] at hdone
  split at hdone
  next => cases hdone
  next => exact h cursor value after hdone

theorem yields_collect {stop : Cursor → Bool} {item : Reader α} (hitem : item.Yields good)
    (fuel : Nat) {read : List α} (hread : ∀ value ∈ read, good value) :
    (collect stop item fuel read).Yields fun values => ∀ value ∈ values, good value := by
  induction fuel generalizing read with
  | zero => exact yields_unfinished
  | succ fuel ih =>
      intro cursor values after hdone
      by_cases hstop : stop cursor
      · rw [collect_of_stop item fuel read hstop] at hdone
        cases hdone
        exact fun value hvalue => hread value (List.mem_reverse.mp hvalue)
      · rw [collect_of_not_stop item fuel read hstop] at hdone
        have hmore : (item >>= fun value => collect stop item fuel (value :: read)).Yields
            fun values => ∀ value ∈ values, good value :=
          hitem.bind fun value hvalue => ih (List.forall_mem_cons.mpr ⟨hvalue, hread⟩)
        exact hmore cursor values after hdone

theorem yields_separated {listing : Listing} {item : Reader α} (hitem : item.Yields good)
    (fuel : Nat) {read : List α} (hread : ∀ value ∈ read, good value) :
    (separated listing item fuel read).Yields fun values => ∀ value ∈ values, good value := by
  induction fuel generalizing read with
  | zero => exact yields_unfinished
  | succ fuel ih =>
      rw [separated]
      split
      next => exact yields_fail (.tooMany listing)
      next =>
        refine hitem.bind fun value hvalue => yields_behind fun comma => ?_
        have hcons := List.forall_mem_cons.mpr ⟨hvalue, hread⟩
        split
        · exact ih hcons
        · exact yields_pure fun value hvalue => hcons value (List.mem_reverse.mp hvalue)

end Reader

/-! ## Rules -/

namespace Grammar

open Reader

/-- The readers through which the grammar is recursive only read what can be derived. -/
structure Scope.Derives (scope : Scope) : Prop where
  declaration (room : Nat) :
    (scope.declaration room).Yields fun stmt => Grammar.Derives (.declaration room) (.stmt stmt)
  statement (room : Nat) :
    (scope.statement room).Yields fun stmt => Grammar.Derives (.statement room) (.stmt stmt)
  expression (room : Nat) :
    (scope.expression room).Yields fun expr => Grammar.Derives (.expression room) (.expr expr)
  operand (room : Nat) :
    (scope.operand room).Yields fun expr => Grammar.Derives (.operand 7 room) (.expr expr)

variable {scope : Scope} {room : Nat}

theorem yields_chain {level : Level} {operand : Reader Expr}
    (hoperand : operand.Yields fun expr => Derives (.operand (level.rank + 1) room) (.expr expr))
    (fuel : Nat) {left : Expr} (hleft : Derives (.operand level.rank room) (.expr left)) :
    (chain level operand fuel left).Yields fun expr =>
      Derives (.operand level.rank room) (.expr expr) := by
  induction fuel generalizing left with
  | zero => exact yields_unfinished
  | succ fuel ih =>
      rw [chain]
      refine yields_behind fun token => ?_
      split
      next => exact yields_pure hleft
      next op hop =>
        obtain ⟨-, hrank⟩ := Level.operator?_eq_some_iff.mp hop
        refine yields_behind fun read => hoperand.bind fun right hright => ih ?_
        rw [← hrank] at hleft hright ⊢
        exact .apply op read.span hleft hright

theorem yields_infixed (hscope : scope.Derives) {levels : List Level} (h : levels <:+ Level.all) :
    (infixed scope room levels).Yields fun expr =>
      Derives (.operand (tightness levels) room) (.expr expr) := by
  induction levels with
  | nil => exact hscope.operand room
  | cons level tighter ih =>
      have hoperand := ih ((List.suffix_cons level tighter).trans h)
      rw [tightness_tighter h] at hoperand
      exact hoperand.bind fun left hleft => yields_chain hoperand scope.fuel (.looser hleft)

theorem yields_assignment (hscope : scope.Derives) :
    (assignment scope room).Yields fun expr => Derives (.operand 0 room) (.expr expr) := by
  rw [assignment]
  refine (yields_infixed hscope List.suffix_rfl).bind fun target htarget => ?_
  refine yields_behind fun assigns => ?_
  split
  · refine yields_behind fun equals => (hscope.expression room).bind fun value hvalue => ?_
    split
    next name => exact yields_pure (.assign name hvalue)
    next => exact yields_failAt .invalidAssignmentTarget equals
  · exact yields_pure (.looser htarget)

theorem yields_block (hscope : scope.Derives) :
    (block scope room).Yields fun body =>
      ∀ stmt ∈ body, Derives (.declaration room) (.stmt stmt) := by
  rw [block]
  refine (yields_collect (hscope.declaration room) scope.fuel (List.forall_mem_nil _)).bind ?_
  intro body hbody
  exact yields_behind fun _ => yields_pure hbody

theorem yields_lambda (hscope : scope.Derives) :
    (lambda scope room).Yields fun expr => Derives (.operand 7 room) (.expr expr) := by
  rw [lambda]
  refine yields_behind fun _ => yields_behind fun names => yields_behind fun _ => ?_
  exact (yields_block hscope).bind fun body hbody => yields_pure (.lambda names hbody)

theorem yields_primary (hscope : scope.Derives) :
    (primary scope room).Yields fun expr => Derives (.operand 7 room) (.expr expr) := by
  rw [primary]
  refine yields_behind fun token => ?_
  split
  next value _ => exact yields_behind fun read => yields_pure (.literal value (some read.span))
  next =>
    split
    next text _ => exact yields_behind fun read => yields_pure (.var ⟨text, read.span⟩)
    next =>
      refine yields_behind fun _ => (hscope.expression room).bind fun inner hinner => ?_
      exact yields_behind fun _ => yields_pure (.grouping hinner)
    next => exact yields_fail (.expectedExpr token)

theorem yields_arguments (hscope : scope.Derives) :
    (arguments scope room).Yields fun (values, _) =>
      ∀ value ∈ values, Derives (.expression room) (.expr value) := by
  rw [arguments]
  refine yields_behind fun empty => ?_
  split
  · exact yields_pure_bind (yields_behind fun _ => yields_pure (List.forall_mem_nil _))
  · refine (yields_separated (hscope.expression room) scope.fuel (List.forall_mem_nil _)).bind ?_
    intro values hvalues
    exact yields_behind fun _ => yields_pure hvalues

theorem yields_calls (hscope : scope.Derives) (fuel : Nat) {callee : Expr}
    (hcallee : Derives (.operand 7 room) (.expr callee)) :
    (calls scope room fuel callee).Yields fun expr => Derives (.operand 7 room) (.expr expr) := by
  induction fuel generalizing callee with
  | zero => exact yields_unfinished
  | succ fuel ih =>
      rw [calls]
      refine yields_behind fun called => ?_
      split
      · refine (yields_arguments hscope).bind ?_
        rintro ⟨values, paren⟩ hvalues
        exact ih (.call paren hcallee hvalues)
      · exact yields_pure hcallee

theorem yields_nestedOperand (hscope : scope.Derives) :
    (nested scope.operand room).Yields fun right =>
      ∀ op, Derives (.operand 7 room) (.expr (.unary op right)) := by
  refine yields_nested fun inner hroom => ?_
  intro cursor right after hdone op
  rw [hroom]
  exact .unary op (hscope.operand inner cursor right after hdone)

theorem yields_operand (hscope : scope.Derives) :
    (operand scope room).Yields fun expr => Derives (.operand 7 room) (.expr expr) := by
  rw [operand]
  refine yields_behind fun function => ?_
  split
  · exact yields_lambda hscope
  · refine yields_behind fun token => ?_
    split
    next op _ =>
      refine yields_behind fun read => (yields_nestedOperand hscope).bind fun right hright => ?_
      exact yields_pure (hright ⟨op, read.span⟩)
    next =>
      exact (yields_primary hscope).bind fun callee hcallee =>
        yields_calls hscope scope.fuel hcallee

theorem yields_someExpression (hscope : scope.Derives) :
    (some <$> scope.expression room).Yields fun value =>
      ∀ expr ∈ value, Derives (.expression room) (.expr expr) := by
  refine Yields.map ?_
  rintro cursor value after hdone _ ⟨⟩
  exact hscope.expression room cursor value after hdone

theorem yields_clause (hscope : scope.Derives) {stop : Symbol} :
    (clause scope room stop).Yields fun value =>
      ∀ expr ∈ value, Derives (.expression room) (.expr expr) := by
  rw [clause]
  refine yields_behind fun missing => ?_
  split
  · refine yields_pure ?_
    rintro _ ⟨⟩
  · exact yields_someExpression hscope

theorem yields_expressionStatement (hscope : scope.Derives) :
    (expressionStatement scope room).Yields fun stmt =>
      ∃ expr, stmt = .expression expr ∧ Derives (.expression room) (.expr expr) := by
  rw [expressionStatement]
  refine (hscope.expression room).bind fun expr hexpr => ?_
  exact yields_behind fun _ => yields_pure ⟨expr, rfl, hexpr⟩

theorem yields_varDefinition (hscope : scope.Derives) :
    (varDefinition scope room).Yields fun stmt =>
      ∃ name value, stmt = .varDef name value ∧
        ∀ expr ∈ value, Derives (.expression room) (.expr expr) := by
  rw [varDefinition]
  refine yields_behind fun name => yields_behind fun assigned => ?_
  split
  · refine (yields_someExpression hscope).bind fun value hvalue => ?_
    exact yields_behind fun _ => yields_pure ⟨name, value, rfl, hvalue⟩
  · refine yields_pure_bind (yields_behind fun _ => yields_pure ⟨name, none, rfl, ?_⟩)
    rintro _ ⟨⟩

theorem yields_forInitializer (hscope : scope.Derives) :
    (forInitializer scope room).Yields fun initializer =>
      ∀ stmt ∈ initializer, Derives (.initializer room) (.stmt stmt) := by
  rw [forInitializer]
  refine yields_behind fun missing => ?_
  split
  · refine yields_pure ?_
    rintro _ ⟨⟩
  · refine yields_behind fun declared => ?_
    split
    · refine Yields.map ?_
      rintro cursor stmt after hdone _ ⟨⟩
      obtain ⟨name, value, rfl, hvalue⟩ := yields_varDefinition hscope cursor stmt after hdone
      exact .initialVar name hvalue
    · refine Yields.map ?_
      rintro cursor stmt after hdone _ ⟨⟩
      obtain ⟨expr, rfl, hexpr⟩ := yields_expressionStatement hscope cursor stmt after hdone
      exact .initialExpression hexpr

theorem yields_forStatement (hscope : scope.Derives) :
    (forStatement scope room).Yields fun stmt => Derives (.statement (room + 1)) (.stmt stmt) := by
  rw [forStatement]
  refine yields_behind fun _ => ?_
  refine (yields_forInitializer hscope).bind fun initializer hinitializer => ?_
  refine (yields_clause hscope).bind fun condition hcondition => yields_behind fun _ => ?_
  refine (yields_clause hscope).bind fun increment hincrement => yields_behind fun _ => ?_
  refine (hscope.statement room).bind fun body hbody => ?_
  exact yields_pure (.forLoop hinitializer hcondition hincrement hbody)

theorem yields_ifStatement (hscope : scope.Derives) :
    (ifStatement scope room).Yields fun stmt => Derives (.statement (room + 1)) (.stmt stmt) := by
  rw [ifStatement]
  refine yields_behind fun _ => (hscope.expression room).bind fun condition hcondition => ?_
  refine yields_behind fun _ => (hscope.statement room).bind fun thenBranch hthen => ?_
  refine yields_behind fun other => ?_
  split
  · refine (hscope.statement room).bind fun elseBranch helse => ?_
    exact yields_pure (.ifElse hcondition hthen helse)
  · exact yields_pure (.ifThen hcondition hthen)

theorem yields_printStatement (hscope : scope.Derives) :
    (printStatement scope room).Yields fun stmt =>
      Derives (.statement (room + 1)) (.stmt stmt) := by
  rw [printStatement]
  refine (hscope.expression room).bind fun expr hexpr => ?_
  exact yields_behind fun _ => yields_pure (.print hexpr)

theorem yields_returnStatement (hscope : scope.Derives) :
    (returnStatement scope room).Yields fun stmt =>
      Derives (.statement (room + 1)) (.stmt stmt) := by
  rw [returnStatement]
  refine yields_behind fun keyword => (yields_clause hscope).bind fun value hvalue => ?_
  exact yields_behind fun _ => yields_pure (.ret keyword hvalue)

theorem yields_whileStatement (hscope : scope.Derives) :
    (whileStatement scope room).Yields fun stmt =>
      Derives (.statement (room + 1)) (.stmt stmt) := by
  rw [whileStatement]
  refine yields_behind fun _ => (hscope.expression room).bind fun condition hcondition => ?_
  refine yields_behind fun _ => (hscope.statement room).bind fun body hbody => ?_
  exact yields_pure (.whileLoop hcondition hbody)

theorem yields_statement (hscope : scope.Derives) :
    (statement scope room).Yields fun stmt => Derives (.statement (room + 1)) (.stmt stmt) := by
  rw [statement]
  refine yields_behind fun isFor => ?_
  split
  · exact yields_forStatement hscope
  refine yields_behind fun isIf => ?_
  split
  · exact yields_ifStatement hscope
  refine yields_behind fun isPrint => ?_
  split
  · exact yields_printStatement hscope
  refine yields_behind fun isReturn => ?_
  split
  · exact yields_returnStatement hscope
  refine yields_behind fun isWhile => ?_
  split
  · exact yields_whileStatement hscope
  refine yields_behind fun isBlock => ?_
  split
  · refine Yields.map ?_
    intro cursor body after hdone
    exact .block (yields_block hscope cursor body after hdone)
  · intro cursor stmt after hdone
    obtain ⟨expr, rfl, hexpr⟩ := yields_expressionStatement hscope cursor stmt after hdone
    exact .expression hexpr

theorem yields_function (hscope : scope.Derives) (kind : String) :
    (function scope room kind).Yields fun function =>
      ∀ stmt ∈ function.body, Derives (.declaration room) (.stmt stmt) := by
  rw [function]
  refine yields_behind fun name => yields_behind fun _ => yields_behind fun names => ?_
  refine yields_behind fun _ => (yields_block hscope).bind fun body hbody => ?_
  exact yields_pure hbody

theorem yields_classDefinition (hscope : scope.Derives) :
    (classDefinition scope room).Yields fun stmt =>
      Derives (.declaration room) (.stmt stmt) := by
  rw [classDefinition]
  refine yields_behind fun name => yields_behind fun _ => ?_
  refine (yields_collect (yields_function hscope "method") scope.fuel (List.forall_mem_nil _)).bind
    fun methods hmethods => ?_
  exact yields_behind fun _ => yields_pure (.classDef name hmethods)

theorem yields_declaration (hscope : scope.Derives) :
    (declaration scope room).Yields fun stmt => Derives (.declaration room) (.stmt stmt) := by
  rw [declaration]
  refine yields_recovering (yields_behind fun isClass => ?_)
  split
  · exact yields_classDefinition hscope
  refine yields_behind fun isFunction => ?_
  split
  · refine Yields.map ?_
    intro cursor function after hdone
    exact .funDef (yields_function hscope "function" cursor function after hdone)
  refine yields_behind fun isVariable => ?_
  split
  · intro cursor stmt after hdone
    obtain ⟨name, value, rfl, hvalue⟩ := yields_varDefinition hscope cursor stmt after hdone
    exact .varDef name hvalue
  · intro cursor stmt after hdone
    exact .statement (hscope.statement room cursor stmt after hdone)

/-! ## The knot -/

theorem scopeWith_derives (fuel : Nat) : (scopeWith fuel).Derives := by
  induction fuel with
  | zero =>
      rw [scopeWith_zero]
      exact ⟨fun _ => yields_unfinished, fun _ => yields_unfinished, fun _ => yields_unfinished,
        fun _ => yields_unfinished⟩
  | succ fuel ih =>
      rw [scopeWith_succ]
      refine ⟨fun room => ?_, fun room => ?_, fun room => ?_, fun room => ?_⟩
      · exact yields_declaration ih
      · refine yields_nested fun inner hroom => ?_
        rw [hroom]
        exact yields_statement ih
      · refine yields_nested fun inner hroom => ?_
        intro cursor expr after hdone
        rw [hroom]
        exact .full (yields_assignment ih cursor expr after hdone)
      · exact yields_operand ih

end Grammar

/-- Every statement that is read from tokens, whatever they are, is derived with all the room that
there is. -/
theorem derives_of_parse {tokens : List (Located Token)} {tree : List Stmt}
    (h : parse tokens = .ok tree) :
    ∀ stmt ∈ tree, Grammar.Derives (.declaration maxDepth) (.stmt stmt) := by
  cases hlast : tokens.getLast? with
  | none =>
      simp only [parse, hlast] at h
      cases h
      exact List.forall_mem_nil _
  | some last =>
      obtain ⟨after, hdone⟩ := done_of_parse hlast h
      have hdeclaration := (Grammar.scopeWith_derives (Grammar.fuelFor tokens.length)).declaration
      exact Reader.yields_collect (hdeclaration maxDepth) _ (List.forall_mem_nil _) _ _ _ hdone

end Stacklet
