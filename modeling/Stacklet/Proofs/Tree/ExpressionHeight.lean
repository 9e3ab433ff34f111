import Stacklet.Proofs.Tree.Derivations
import Stacklet.Proofs.Tree.Parsing

/-! # How high expressions are

Full expressions and unary operators use up the room for nesting, and levels of precedence come in
between. So a way down an expression takes few steps other than to a left operand or a callee.
Chains of operators and calls are read in loops: they grow to the left without a bound.
-/

namespace Stacklet

/-! ## Ways down expressions -/

mutual

/-- The most steps on a way down an expression. Those to a left operand or a callee have one weight,
those to another part have another. Bodies of functions are no parts. -/
def Expr.descent (left other : Nat) : Expr → Nat
  | .binary l _ r => max (l.descent left other + left) (r.descent left other + other)
  | .logical l _ r => max (l.descent left other + left) (r.descent left other + other)
  | .unary _ operand => operand.descent left other + other
  | .literal .. | .var .. | .lambda .. => 0
  | .grouping inner => inner.descent left other + other
  | .assign _ value => value.descent left other + other
  | .call callee _ arguments =>
    max (callee.descent left other + left) (Expr.descentOf left other arguments)

/-- The most steps on a way down through one of some expressions, the step to it included. -/
def Expr.descentOf (left other : Nat) : List Expr → Nat
  | [] => 0
  | expr :: rest => max (expr.descent left other + other) (Expr.descentOf left other rest)

end

/-- How many expressions are on the longest way down an expression. -/
def Expr.height (expr : Expr) : Nat :=
  expr.descent 1 1 + 1

theorem Expr.descentOf_le {left other bound : Nat} {exprs : List Expr} :
    Expr.descentOf left other exprs ≤ bound ↔
      ∀ expr ∈ exprs, expr.descent left other + other ≤ bound := by
  induction exprs with
  | nil => simp [Expr.descentOf]
  | cons expr rest ih => rw [Expr.descentOf, Nat.max_le, ih, List.forall_mem_cons]

mutual

/-- On any way down, steps to the left and other steps make up all of them. -/
theorem Expr.descent_le_add : (expr : Expr) →
    expr.descent 1 1 ≤ expr.descent 0 1 + expr.descent 1 0
  | .binary left _ right | .logical left _ right => by
      have hleft := left.descent_le_add
      have hright := right.descent_le_add
      simp only [Expr.descent]
      omega
  | .unary _ operand => by
      have hoperand := operand.descent_le_add
      simp only [Expr.descent]
      omega
  | .literal .. | .var .. | .lambda .. => Nat.zero_le _
  | .grouping inner => by
      have hinner := inner.descent_le_add
      simp only [Expr.descent]
      omega
  | .assign _ value => by
      have hvalue := value.descent_le_add
      simp only [Expr.descent]
      omega
  | .call callee _ arguments => by
      have hcallee := callee.descent_le_add
      have harguments := Expr.descentOf_le_add arguments
      simp only [Expr.descent]
      omega

theorem Expr.descentOf_le_add : (exprs : List Expr) →
    Expr.descentOf 1 1 exprs ≤ Expr.descentOf 0 1 exprs + Expr.descentOf 1 0 exprs
  | [] => Nat.zero_le _
  | expr :: rest => by
      have hexpr := expr.descent_le_add
      have hrest := Expr.descentOf_le_add rest
      simp only [Expr.descentOf]
      omega

end

/-! ## Derived expressions -/

/-- The most steps on a way down an expression that do not go to the left. -/
def Node.descent : Node → Nat
  | .expr whole => whole.descent 0 1
  | .stmt _ => 0

namespace Grammar

/-- How many steps that do not go to the left there can be on a way down an expression in a
place. -/
def Place.descent : Place → Nat
  | .operand tightness room => 7 * room + 7 - max 1 tightness
  | .expression room => 7 * room - 1
  | _ => 0

theorem InfixOp.rank_bounds (op : InfixOp) : 1 ≤ op.rank ∧ op.rank ≤ 6 := by
  rcases op with op | op <;> cases op <;> decide

theorem InfixOp.descent_apply (op : InfixOp) {left right : Expr} {span : Span} :
    (op.apply left span right).descent 0 1 = max (left.descent 0 1) (right.descent 0 1 + 1) := by
  cases op <;> rfl

theorem Derives.descent_le {place : Place} {node : Node} (h : Derives place node) :
    node.descent ≤ place.descent := by
  induction h with
  | literal | var | lambda => exact Nat.zero_le _
  | grouping hinner ih =>
      have hroom := hinner.room_pos
      simp only [Node.descent, Expr.descent, Place.descent] at ih ⊢
      omega
  | call _ _ harguments ihCallee ihArguments =>
      refine Nat.max_le.mpr ⟨ihCallee, Expr.descentOf_le.mpr ?_⟩
      intro argument hargument
      have hroom := (harguments argument hargument).room_pos
      have hle := ihArguments argument hargument
      simp only [Node.descent, Place.descent] at hle ⊢
      omega
  | unary _ _ ih =>
      simp only [Node.descent, Expr.descent, Place.descent] at ih ⊢
      omega
  | apply op _ _ _ ihLeft ihRight =>
      obtain ⟨hleast, hgreatest⟩ := op.rank_bounds
      simp only [Node.descent, InfixOp.descent_apply, Place.descent] at ihLeft ihRight ⊢
      omega
  | looser _ ih =>
      simp only [Node.descent, Place.descent] at ih ⊢
      omega
  | assign _ hvalue ih =>
      have hroom := hvalue.room_pos
      simp only [Node.descent, Expr.descent, Place.descent] at ih ⊢
      omega
  | full _ ih =>
      simp only [Node.descent, Place.descent] at ih ⊢
      omega
  | _ => exact Nat.zero_le _

end Grammar

/-! ## Sums -/

/-- Variables that are added, from the left to the right. -/
def sumOf : Nat → Expr
  | 0 => .var ⟨"x", ⟨1, 0, 1⟩⟩
  | count + 1 => .binary (sumOf count) ⟨.add, ⟨1, 0, 1⟩⟩ (.var ⟨"x", ⟨1, 0, 1⟩⟩)

theorem height_sumOf (count : Nat) : (sumOf count).height = count + 1 := by
  induction count with
  | zero => rfl
  | succ count ih =>
      rw [Expr.height] at ih ⊢
      rw [sumOf, Expr.descent, Expr.descent]
      omega

theorem canonical_sumOf (count : Nat) : (sumOf count).Canonical ∧ 5 ≤ (sumOf count).rank := by
  induction count with
  | zero => exact ⟨trivial, by decide⟩
  | succ count ih => exact ⟨⟨ih.1, trivial, ih.2, by decide⟩, Nat.le_refl 5⟩

theorem depth_sumOf (count : Nat) : (sumOf count).depth = 0 := by
  induction count with
  | zero => rfl
  | succ count ih => rw [sumOf, Expr.depth, ih, Expr.depth, Nat.max_zero]

theorem isCanonical_print_sumOf (count : Nat) : IsCanonical [.print (sumOf count)] := by
  refine ⟨⟨(canonical_sumOf count).1, rfl, trivial⟩, ?_⟩
  rw [Stmt.depthOf, Stmt.depthOf, Stmt.depth, depth_sumOf]
  decide

theorem place_ne_of_mem_sumOf {count : Nat} {mark : Mark} (h : mark ∈ (sumOf count).marks) :
    mark.place ≠ some none := by
  induction count with
  | zero =>
      obtain rfl := List.mem_singleton.mp h
      rintro ⟨⟩
  | succ count ih =>
      simp only [sumOf, Expr.marks, List.mem_append, List.mem_cons, List.not_mem_nil,
        or_false] at h
      rcases h with h | rfl | rfl
      · exact ih h
      · rintro ⟨⟩
      · rintro ⟨⟩

theorem exists_parse_print_sumOf (count : Nat) :
    ∃ front last, last.value = Token.endOfInput ∧
      parse (front ++ [last]) = .ok [.print (sumOf count)] := by
  refine exists_parse_of_isCanonical (isCanonical_print_sumOf count) ?_
  intro mark hmark
  simp only [Stmt.marksOf, Stmt.marks, List.append_nil, List.mem_cons, List.mem_append,
    List.not_mem_nil, or_false] at hmark
  rcases hmark with rfl | hmark | rfl
  · rintro ⟨⟩
  · exact place_ne_of_mem_sumOf hmark
  · rintro ⟨⟩

theorem mem_nodesOf_print (expr : Expr) : .expr expr ∈ Stmt.nodesOf [.print expr] := by
  rw [Stmt.nodesOf, Stmt.within]
  exact List.mem_cons_of_mem _ List.mem_cons_self

/-! ## Streams of tokens -/

/-- Whatever tokens are read, a way down an expression of the tree takes few steps but those to a
left operand or a callee: fewer than seven for each level of nesting, one for each level of
precedence. The expression is higher only by as many as there are steps to the left on one way. -/
theorem height_le_of_parse {tokens : List (Located Token)} {tree : List Stmt} {expr : Expr}
    (h : parse tokens = .ok tree) (hexpr : .expr expr ∈ Stmt.nodesOf tree) :
    expr.descent 0 1 < 7 * maxDepth ∧ expr.height ≤ 7 * maxDepth + expr.descent 1 0 := by
  have hcovers : Grammar.Covers maxDepth (Stmt.nodesOf tree) := by
    refine Grammar.covers_stmts ?_
    intro stmt hstmt
    exact (derives_of_parse h stmt hstmt).covers_nodes
  obtain ⟨tightness, room, hderives, hroom⟩ := hcovers expr hexpr
  have hdescent : expr.descent 0 1 ≤ 7 * room + 7 - max 1 tightness := hderives.descent_le
  have hadd := expr.descent_le_add
  rw [Expr.height]
  omega

theorem height_le_of_parse_sum :
    ∃ tokens, parse tokens = .ok [.print (sumOf 1000)] ∧
      (sumOf 1000).descent 0 1 < 7 * maxDepth ∧
      1001 ≤ 7 * maxDepth + (sumOf 1000).descent 1 0 := by
  obtain ⟨front, last, -, hparse⟩ := exists_parse_print_sumOf 1000
  obtain ⟨hother, hheight⟩ := height_le_of_parse hparse (mem_nodesOf_print _)
  rw [height_sumOf] at hheight
  exact ⟨front ++ [last], hparse, hother, hheight⟩

/-- There is no bound for how high expressions are. -/
theorem not_exists_height_bound :
    ¬ ∃ bound, ∀ front last tree, last.value = Token.endOfInput →
      parse (front ++ [last]) = .ok tree →
      ∀ expr, .expr expr ∈ Stmt.nodesOf tree → expr.height ≤ bound := by
  rintro ⟨bound, hbound⟩
  obtain ⟨front, last, hlast, hparse⟩ := exists_parse_print_sumOf bound
  have hle := hbound front last _ hlast hparse (sumOf bound) (mem_nodesOf_print _)
  rw [height_sumOf] at hle
  exact Nat.not_succ_le_self bound hle

end Stacklet
