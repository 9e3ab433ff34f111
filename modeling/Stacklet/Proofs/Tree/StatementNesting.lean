import Stacklet.Proofs.Tree.Derivations
import Stacklet.Proofs.Tree.Parsing

/-! # How many statements are within each other

Statements use up the room for nesting, so a way into a tree passes few statements that are no
definitions of functions or classes. The bodies of definitions take no room themselves: definitions
can be within each other without a bound.
-/

namespace Stacklet

/-! ## Ways into trees -/

mutual

/-- The most statements that count on a way into an expression. -/
def Expr.nesting (counts : Stmt → Bool) : Expr → Nat
  | .binary left _ right => max (left.nesting counts) (right.nesting counts)
  | .unary _ operand => operand.nesting counts
  | .literal .. | .var .. => 0
  | .grouping inner => inner.nesting counts
  | .assign _ value => value.nesting counts
  | .logical left _ right => max (left.nesting counts) (right.nesting counts)
  | .call callee _ arguments => max (callee.nesting counts) (Expr.nestingOf counts arguments)
  | .lambda _ body => Stmt.nestingOf counts body

/-- The most statements that count on a way into one of some expressions. -/
def Expr.nestingOf (counts : Stmt → Bool) : List Expr → Nat
  | [] => 0
  | expr :: rest => max (expr.nesting counts) (Expr.nestingOf counts rest)

/-- The most statements that count on a way into a statement, itself included. -/
def Stmt.nesting (counts : Stmt → Bool) (stmt : Stmt) : Nat :=
  (counts stmt).toNat +
    match stmt with
    | .expression expr => expr.nesting counts
    | .print expr => expr.nesting counts
    | .varDef _ none => 0
    | .varDef _ (some value) => value.nesting counts
    | .block body => Stmt.nestingOf counts body
    | .ifThen condition thenBranch => max (condition.nesting counts) (thenBranch.nesting counts)
    | .ifElse condition thenBranch elseBranch =>
      max (condition.nesting counts) (max (thenBranch.nesting counts) (elseBranch.nesting counts))
    | .whileLoop condition body => max (condition.nesting counts) (body.nesting counts)
    | .funDef function => function.nesting counts
    | .ret _ none => 0
    | .ret _ (some value) => value.nesting counts
    | .classDef _ methods => Function.nestingOf counts methods

/-- The most statements that count on a way into one of some statements. -/
def Stmt.nestingOf (counts : Stmt → Bool) : List Stmt → Nat
  | [] => 0
  | stmt :: rest => max (stmt.nesting counts) (Stmt.nestingOf counts rest)

/-- The most statements that count on a way into a function. -/
def Function.nesting (counts : Stmt → Bool) : Function → Nat
  | .mk _ _ body => Stmt.nestingOf counts body

/-- The most statements that count on a way into one of some functions. -/
def Function.nestingOf (counts : Stmt → Bool) : List Function → Nat
  | [] => 0
  | function :: rest => max (function.nesting counts) (Function.nestingOf counts rest)

end

/-- Definitions of functions and classes. -/
def Stmt.isDefinition : Stmt → Bool
  | .funDef _ | .classDef .. => true
  | _ => false

/-- Statements that are no definitions of functions or classes. -/
def Stmt.isPlain (stmt : Stmt) : Bool :=
  !stmt.isDefinition

variable {counts : Stmt → Bool} {bound : Nat}

theorem Expr.nestingOf_le {exprs : List Expr} :
    Expr.nestingOf counts exprs ≤ bound ↔ ∀ expr ∈ exprs, expr.nesting counts ≤ bound := by
  induction exprs with
  | nil => simp [Expr.nestingOf]
  | cons expr rest ih => rw [Expr.nestingOf, Nat.max_le, ih, List.forall_mem_cons]

theorem Stmt.nestingOf_le {statements : List Stmt} :
    Stmt.nestingOf counts statements ≤ bound ↔
      ∀ stmt ∈ statements, stmt.nesting counts ≤ bound := by
  induction statements with
  | nil => simp [Stmt.nestingOf]
  | cons stmt rest ih => rw [Stmt.nestingOf, Nat.max_le, ih, List.forall_mem_cons]

theorem Function.nesting_le {function : Function} :
    function.nesting counts ≤ bound ↔ ∀ stmt ∈ function.body, stmt.nesting counts ≤ bound := by
  obtain ⟨name, parameters, body⟩ := function
  exact Stmt.nestingOf_le

theorem Function.nestingOf_le {functions : List Function} :
    Function.nestingOf counts functions ≤ bound ↔
      ∀ function ∈ functions, function.nesting counts ≤ bound := by
  induction functions with
  | nil => simp [Function.nestingOf]
  | cons function rest ih => rw [Function.nestingOf, Nat.max_le, ih, List.forall_mem_cons]

/-- The most statements that count on a way into a node. -/
def Node.nesting (counts : Stmt → Bool) : Node → Nat
  | .expr whole => whole.nesting counts
  | .stmt whole => whole.nesting counts

/-! ## Derived trees -/

namespace Grammar

/-- How many statements that are no definitions can be on a way into what stands in a place. A loop
that is written with `for` has three of them for one level of nesting. -/
def Place.nesting : Place → Nat
  | .operand _ room => max 1 (3 * room)
  | .expression room => max 1 (3 * (room - 1))
  | .initializer room => 1 + max 1 (3 * (room - 1))
  | .statement room => 3 * room
  | .declaration room => max 1 (3 * room)

theorem Place.nesting_expression_le_operand (tightness room : Nat) :
    (Place.expression room).nesting ≤ (Place.operand tightness room).nesting := by
  simp only [Place.nesting]
  omega

/-- Whatever stands within a statement leaves a level of nesting to it. -/
theorem Place.nesting_le_statement (room : Nat) :
    (Place.expression room).nesting ≤ 3 * room + 2 ∧
      (Place.declaration room).nesting ≤ 3 * room + 2 ∧
      (Place.statement room).nesting ≤ 3 * room + 2 := by
  simp only [Place.nesting]
  omega

/-- A statement is at most one more than what is within it. -/
theorem nesting_le_succ {stmt : Stmt} {inner : Nat}
    (h : stmt.nesting counts = (counts stmt).toNat + inner) (hinner : inner ≤ bound) :
    stmt.nesting counts ≤ bound + 1 := by
  have hcount := Bool.toNat_le (counts stmt)
  omega

theorem nesting_optional_le {value : Option Expr} {build : Option Expr → Stmt}
    (hnone : (build none).nesting counts = (counts (build none)).toNat + 0)
    (hsome : ∀ expr, (build (some expr)).nesting counts =
      (counts (build (some expr))).toNat + expr.nesting counts)
    (h : ∀ expr ∈ value, expr.nesting counts ≤ bound) :
    (build value).nesting counts ≤ bound + 1 := by
  cases value with
  | none => exact nesting_le_succ hnone (Nat.zero_le _)
  | some expr => exact nesting_le_succ (hsome expr) (h expr rfl)

theorem nesting_varDef_le {name : Located String} {value : Option Expr}
    (h : ∀ expr ∈ value, expr.nesting counts ≤ bound) :
    (Stmt.varDef name value).nesting counts ≤ bound + 1 :=
  nesting_optional_le rfl (fun _ => rfl) h

theorem nesting_pair_le {first second : Stmt} (hfirst : first.nesting counts ≤ bound)
    (hsecond : second.nesting counts ≤ bound) :
    (Stmt.block [first, second]).nesting counts ≤ bound + 1 := by
  refine nesting_le_succ rfl (Stmt.nestingOf_le.mpr ?_)
  simp [hfirst, hsecond]

/-- In the tree that a `for` stands for, its body is within three statements, and its increment is a
fourth one there. -/
theorem nesting_forLoop_le {initializer : Option Stmt} {condition increment : Option Expr}
    {body : Stmt} (hinitializer : ∀ stmt ∈ initializer, stmt.nesting counts ≤ bound + 2)
    (hcondition : ∀ expr ∈ condition, expr.nesting counts ≤ bound + 1)
    (hincrement : ∀ expr ∈ increment, (Stmt.expression expr).nesting counts ≤ bound)
    (hbody : body.nesting counts ≤ bound) :
    (forLoop initializer condition increment body).nesting counts ≤ bound + 3 := by
  have hwhile : ∀ inner : Stmt, inner.nesting counts ≤ bound + 1 →
      (Stmt.whileLoop (condition.getD (.literal (.bool true) none)) inner).nesting counts ≤
        bound + 2 := by
    intro inner hinner
    refine nesting_le_succ rfl (Nat.max_le.mpr ⟨?_, hinner⟩)
    cases condition with
    | none => exact Nat.zero_le _
    | some condition => exact hcondition condition rfl
  have hloop : (forLoop none condition increment body).nesting counts ≤ bound + 2 := by
    cases increment with
    | none => exact hwhile body (Nat.le_succ_of_le hbody)
    | some increment => exact hwhile _ (nesting_pair_le hbody (hincrement increment rfl))
  cases initializer with
  | none => exact Nat.le_succ_of_le hloop
  | some initializer => exact nesting_pair_le (hinitializer initializer rfl) hloop

/-- The room for nesting bounds how many statements are within each other, but for definitions. -/
theorem Derives.nesting_le {place : Place} {node : Node} (h : Derives place node) :
    node.nesting Stmt.isPlain ≤ place.nesting := by
  induction h with
  | literal | var => exact Nat.zero_le _
  | grouping _ ih | assign _ _ ih => exact ih.trans (Place.nesting_expression_le_operand _ _)
  | call _ _ _ ihCallee ihArguments =>
      refine Nat.max_le.mpr ⟨ihCallee, Expr.nestingOf_le.mpr ?_⟩
      intro argument hargument
      exact (ihArguments argument hargument).trans (Place.nesting_expression_le_operand _ _)
  | lambda _ _ ih => exact Stmt.nestingOf_le.mpr ih
  | @unary room _ _ _ ih =>
      have hroom : max 1 (3 * room) ≤ max 1 (3 * (room + 1)) := by omega
      exact ih.trans hroom
  | apply op _ _ _ ihLeft ihRight => cases op <;> exact Nat.max_le.mpr ⟨ihLeft, ihRight⟩
  | looser _ ih | full _ ih => exact ih
  | @expression room _ _ ih | @print room _ _ ih =>
      exact nesting_le_succ rfl (ih.trans (Place.nesting_le_statement room).1)
  | @ret room _ _ _ ih =>
      refine nesting_optional_le rfl (fun _ => rfl) fun expr hexpr => ?_
      exact (ih expr hexpr).trans (Place.nesting_le_statement room).1
  | @block room _ _ ih =>
      refine nesting_le_succ rfl (Stmt.nestingOf_le.mpr fun stmt hstmt => ?_)
      exact (ih stmt hstmt).trans (Place.nesting_le_statement room).2.1
  | @ifThen room _ _ _ _ ihCondition ihThen | @whileLoop room _ _ _ _ ihCondition ihThen =>
      obtain ⟨hexpression, -, hstatement⟩ := Place.nesting_le_statement room
      exact nesting_le_succ rfl
        (Nat.max_le.mpr ⟨ihCondition.trans hexpression, ihThen.trans hstatement⟩)
  | @ifElse room _ _ _ _ _ _ ihCondition ihThen ihElse =>
      obtain ⟨hexpression, -, hstatement⟩ := Place.nesting_le_statement room
      exact nesting_le_succ rfl (Nat.max_le.mpr ⟨ihCondition.trans hexpression,
        Nat.max_le.mpr ⟨ihThen.trans hstatement, ihElse.trans hstatement⟩⟩)
  | @forLoop room _ _ _ _ _ _ hincrement _ ihInitializer ihCondition ihIncrement ihBody =>
      change _ ≤ 3 * room + 3
      refine nesting_forLoop_le (fun stmt hstmt => ?_) (fun expr hexpr => ?_)
        (fun expr hexpr => ?_) ihBody
      · have hle := ihInitializer stmt hstmt
        simp only [Node.nesting, Place.nesting] at hle
        omega
      · have hle := ihCondition expr hexpr
        simp only [Node.nesting, Place.nesting] at hle
        omega
      · have hroom := (hincrement expr hexpr).room_pos
        refine (nesting_le_succ rfl (ihIncrement expr hexpr)).trans ?_
        simp only [Place.nesting]
        omega
  | initialExpression _ ih =>
      rw [Place.nesting, Nat.add_comm]
      exact nesting_le_succ rfl ih
  | initialVar _ _ ih =>
      rw [Place.nesting, Nat.add_comm]
      exact nesting_varDef_le ih
  | @varDef room value name hvalue ih =>
      cases value with
      | none => exact Nat.le_max_left _ _
      | some expr =>
          have hroom := (hvalue expr rfl).room_pos
          refine (nesting_varDef_le ih).trans ?_
          simp only [Place.nesting]
          omega
  | @funDef room function _ ih =>
      have hbody : function.nesting Stmt.isPlain ≤ (Place.declaration room).nesting :=
        Function.nesting_le.mpr ih
      exact (Nat.zero_add _).trans_le hbody
  | @classDef room methods _ _ ih =>
      have hmethods : Function.nestingOf Stmt.isPlain methods ≤ (Place.declaration room).nesting :=
        Function.nestingOf_le.mpr fun function hfunction =>
          Function.nesting_le.mpr (ih function hfunction)
      exact (Nat.zero_add _).trans_le hmethods
  | @statement room _ _ ih => exact ih.trans (Nat.le_max_right _ _)

end Grammar

theorem max_le_max_add_max {a b c d e f : Nat} (hleft : a ≤ c + e) (hright : b ≤ d + f) :
    max a b ≤ max c d + max e f := by
  omega

/-- A statement is either a definition or not. -/
theorem Stmt.nesting_true_le_of {stmt : Stmt} {all plain defined : Nat}
    (hall : stmt.nesting (fun _ => true) = 1 + all)
    (hplain : stmt.nesting Stmt.isPlain = stmt.isPlain.toNat + plain)
    (hdefined : stmt.nesting Stmt.isDefinition = stmt.isDefinition.toNat + defined)
    (h : all ≤ plain + defined) :
    stmt.nesting (fun _ => true) ≤
      stmt.nesting Stmt.isPlain + stmt.nesting Stmt.isDefinition := by
  have hcount : stmt.isPlain.toNat + stmt.isDefinition.toNat = 1 := by
    rw [Stmt.isPlain]
    cases stmt.isDefinition <;> rfl
  omega

mutual

/-- On any way, the statements that are definitions and those that are not make up all of them. -/
theorem Expr.nesting_true_le : (expr : Expr) →
    expr.nesting (fun _ => true) ≤ expr.nesting Stmt.isPlain + expr.nesting Stmt.isDefinition
  | .binary left _ right | .logical left _ right =>
      max_le_max_add_max left.nesting_true_le right.nesting_true_le
  | .unary _ operand => operand.nesting_true_le
  | .literal .. | .var .. => Nat.zero_le _
  | .grouping inner => inner.nesting_true_le
  | .assign _ value => value.nesting_true_le
  | .call callee _ arguments =>
      max_le_max_add_max callee.nesting_true_le (Expr.nestingOf_true_le arguments)
  | .lambda _ body => Stmt.nestingOf_true_le body

theorem Expr.nestingOf_true_le : (exprs : List Expr) →
    Expr.nestingOf (fun _ => true) exprs ≤
      Expr.nestingOf Stmt.isPlain exprs + Expr.nestingOf Stmt.isDefinition exprs
  | [] => Nat.zero_le _
  | expr :: rest => max_le_max_add_max expr.nesting_true_le (Expr.nestingOf_true_le rest)

theorem Stmt.nesting_true_le : (stmt : Stmt) →
    stmt.nesting (fun _ => true) ≤ stmt.nesting Stmt.isPlain + stmt.nesting Stmt.isDefinition
  | .expression expr => Stmt.nesting_true_le_of rfl rfl rfl expr.nesting_true_le
  | .print expr => Stmt.nesting_true_le_of rfl rfl rfl expr.nesting_true_le
  | .varDef _ none => Stmt.nesting_true_le_of rfl rfl rfl (Nat.zero_le _)
  | .varDef _ (some value) => Stmt.nesting_true_le_of rfl rfl rfl value.nesting_true_le
  | .block body => Stmt.nesting_true_le_of rfl rfl rfl (Stmt.nestingOf_true_le body)
  | .ifThen condition thenBranch =>
      Stmt.nesting_true_le_of rfl rfl rfl
        (max_le_max_add_max condition.nesting_true_le thenBranch.nesting_true_le)
  | .ifElse condition thenBranch elseBranch =>
      Stmt.nesting_true_le_of rfl rfl rfl (max_le_max_add_max condition.nesting_true_le
        (max_le_max_add_max thenBranch.nesting_true_le elseBranch.nesting_true_le))
  | .whileLoop condition body =>
      Stmt.nesting_true_le_of rfl rfl rfl
        (max_le_max_add_max condition.nesting_true_le body.nesting_true_le)
  | .funDef function => Stmt.nesting_true_le_of rfl rfl rfl function.nesting_true_le
  | .ret _ none => Stmt.nesting_true_le_of rfl rfl rfl (Nat.zero_le _)
  | .ret _ (some value) => Stmt.nesting_true_le_of rfl rfl rfl value.nesting_true_le
  | .classDef _ methods => Stmt.nesting_true_le_of rfl rfl rfl (Function.nestingOf_true_le methods)

theorem Stmt.nestingOf_true_le : (statements : List Stmt) →
    Stmt.nestingOf (fun _ => true) statements ≤
      Stmt.nestingOf Stmt.isPlain statements + Stmt.nestingOf Stmt.isDefinition statements
  | [] => Nat.zero_le _
  | stmt :: rest => max_le_max_add_max stmt.nesting_true_le (Stmt.nestingOf_true_le rest)

theorem Function.nesting_true_le : (function : Function) →
    function.nesting (fun _ => true) ≤
      function.nesting Stmt.isPlain + function.nesting Stmt.isDefinition
  | .mk _ _ body => Stmt.nestingOf_true_le body

theorem Function.nestingOf_true_le : (functions : List Function) →
    Function.nestingOf (fun _ => true) functions ≤
      Function.nestingOf Stmt.isPlain functions + Function.nestingOf Stmt.isDefinition functions
  | [] => Nat.zero_le _
  | function :: rest =>
      max_le_max_add_max function.nesting_true_le (Function.nestingOf_true_le rest)

end

/-! ## Functions within each other -/

/-- Functions within each other. -/
def functionsWithin : Nat → List Stmt
  | 0 => []
  | count + 1 => [.funDef (.mk ⟨"f", ⟨1, 0, 1⟩⟩ [] (functionsWithin count))]

theorem nestingOf_functionsWithin (count : Nat) :
    Stmt.nestingOf (fun _ => true) (functionsWithin count) = count := by
  induction count with
  | zero => rfl
  | succ count ih =>
      simp only [functionsWithin, Stmt.nestingOf, Stmt.nesting, Function.nesting, ih,
        Bool.toNat_true, Nat.max_zero]
      omega

theorem isCanonical_functionsWithin (count : Nat) : IsCanonical (functionsWithin count) := by
  induction count with
  | zero => exact ⟨trivial, Nat.zero_le _⟩
  | succ count ih =>
      exact ⟨⟨⟨Nat.zero_le _, ih.1⟩, rfl, trivial⟩, Nat.max_le.mpr ⟨ih.2, Nat.zero_le _⟩⟩

theorem place_ne_of_mem_functionsWithin {count : Nat} {mark : Mark}
    (h : mark ∈ Stmt.marksOf (functionsWithin count)) : mark.place ≠ some none := by
  induction count with
  | zero => cases h
  | succ count ih =>
      simp only [functionsWithin, Stmt.marksOf, Stmt.marks, Function.marks, parameterMarks, listed,
        List.map_nil, List.nil_append, List.append_nil, List.cons_append, List.mem_cons,
        List.mem_append, List.not_mem_nil, or_false] at h
      rcases h with rfl | rfl | rfl | rfl | rfl | h | rfl
      case inr.inr.inr.inr.inr.inl => exact ih h
      all_goals rintro ⟨⟩

theorem exists_parse_functionsWithin (count : Nat) :
    ∃ front last, last.value = Token.endOfInput ∧
      parse (front ++ [last]) = .ok (functionsWithin count) :=
  exists_parse_of_isCanonical (isCanonical_functionsWithin count)
    fun _ => place_ne_of_mem_functionsWithin

/-! ## Streams of tokens -/

/-- Whatever tokens are read, few statements are within each other but for definitions of functions
and classes: no way into the tree passes more than three for each level of nesting, and it passes
more statements in all only by as many as there are definitions within each other. -/
theorem nesting_le_of_parse {tokens : List (Located Token)} {tree : List Stmt}
    (h : parse tokens = .ok tree) :
    Stmt.nestingOf Stmt.isPlain tree ≤ 3 * maxDepth ∧
      Stmt.nestingOf (fun _ => true) tree ≤
        3 * maxDepth + Stmt.nestingOf Stmt.isDefinition tree := by
  have hplain : Stmt.nestingOf Stmt.isPlain tree ≤ 3 * maxDepth := by
    refine Stmt.nestingOf_le.mpr ?_
    intro stmt hstmt
    exact (derives_of_parse h stmt hstmt).nesting_le
  exact ⟨hplain, (Stmt.nestingOf_true_le tree).trans (Nat.add_le_add_right hplain _)⟩

theorem nesting_le_of_parse_functions :
    ∃ tokens, parse tokens = .ok (functionsWithin 500) ∧
      Stmt.nestingOf Stmt.isPlain (functionsWithin 500) ≤ 3 * maxDepth ∧
      500 ≤ 3 * maxDepth + Stmt.nestingOf Stmt.isDefinition (functionsWithin 500) := by
  obtain ⟨front, last, -, hparse⟩ := exists_parse_functionsWithin 500
  obtain ⟨hplain, hall⟩ := nesting_le_of_parse hparse
  rw [nestingOf_functionsWithin] at hall
  exact ⟨front ++ [last], hparse, hplain, hall⟩

/-- There is no bound for how many statements are within each other. -/
theorem not_exists_nesting_bound :
    ¬ ∃ bound, ∀ front last tree, last.value = Token.endOfInput →
      parse (front ++ [last]) = .ok tree → Stmt.nestingOf (fun _ => true) tree ≤ bound := by
  rintro ⟨bound, hbound⟩
  obtain ⟨front, last, hlast, hparse⟩ := exists_parse_functionsWithin (bound + 1)
  have hle := hbound front last _ hlast hparse
  rw [nestingOf_functionsWithin] at hle
  exact Nat.not_succ_le_self bound hle

end Stacklet
