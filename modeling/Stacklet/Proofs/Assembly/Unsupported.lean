import Stacklet.Proofs.Assembly.Output
import Stacklet.Proofs.Tree.Nodes

/-! # What code cannot be made of

The walk over a tree reaches nodes, each before what is within it, and writes templates in between.
An operator is looked at when its node is reached, which is before its operands, though its template
is behind them. The walk ends at the first node that code cannot be made of: its error is the
outcome, and what has been written is the templates before it, in no frame but the prologue.
-/

namespace Stacklet

open Assembly

/-! ## Nodes -/

/-- Statements that are walked through. -/
def Stmt.isWalked : Stmt → Bool
  | .print .. | .block .. | .ifThen .. | .ifElse .. => true
  | _ => false

/-- Expressions that are walked through. -/
def Expr.isWalked : Expr → Bool
  | .literal .. | .binary .. => true
  | _ => false

/-- Constants with a value on the stack machine: truth, falsehood and integers of 64 bits. -/
def Literal.IsCell : Literal → Prop
  | .number value =>
    value.isFinite ∧ ∃ n : Int, value.toRat = n ∧ -0x8000000000000000 ≤ n ∧ n < 0x8000000000000000
  | .bool _ => True
  | _ => False

/-- The errors of the nodes that code cannot be made of. -/
inductive Node.Unsupported : Node → EmitError → Prop
  | stmt {stmt : Stmt} (h : ¬ stmt.isWalked) :
    Unsupported (.stmt stmt) (.unsupported stmt.construct stmt.span?)
  | expr {expr : Expr} (h : ¬ expr.isWalked) :
    Unsupported (.expr expr) (.unsupported expr.construct expr.span?)
  | operator {left right : Expr} {op : Located BinaryOp}
    (h : op.value ∉ [.add, .sub, .equal, .notEqual]) :
    Unsupported (.expr (.binary left op right)) (.unsupportedOperator op)
  | literal {value : Literal} {span : Option Span} (h : ¬ value.IsCell) :
    Unsupported (.expr (.literal value span)) (.unsupportedLiteral value span)

/-- The nodes that are reached in an expression, in the order of the walk. -/
def Expr.reached : Expr → List Node
  | .binary left op right => .expr (.binary left op right) :: (left.reached ++ right.reached)
  | expr => [.expr expr]

mutual

/-- The nodes that are reached in a statement, in the order of the walk. -/
def Stmt.reached : Stmt → List Node
  | .print expr => .stmt (.print expr) :: expr.reached
  | .block body => .stmt (.block body) :: Stmt.reachedOf body
  | .ifThen condition thenBranch =>
    .stmt (.ifThen condition thenBranch) :: (condition.reached ++ thenBranch.reached)
  | .ifElse condition thenBranch elseBranch =>
    .stmt (.ifElse condition thenBranch elseBranch) ::
      (condition.reached ++ (thenBranch.reached ++ elseBranch.reached))
  | stmt => [.stmt stmt]

/-- The nodes that are reached in statements. -/
def Stmt.reachedOf : List Stmt → List Node
  | [] => []
  | stmt :: rest => stmt.reached ++ Stmt.reachedOf rest

end

/-- The fault that is found when a node is reached. -/
def Node.fault? : Node → Option EmitError
  | .expr (.literal value span) =>
    if value.cell?.isSome then none else some (.unsupportedLiteral value span)
  | .expr (.binary _ op _) =>
    if (operator? op.value).isSome then none else some (.unsupportedOperator op)
  | .expr whole => some (.unsupported whole.construct whole.span?)
  | .stmt whole =>
    if whole.isWalked then none else some (.unsupported whole.construct whole.span?)

theorem Literal.isSome_cell?_iff {value : Literal} : value.cell?.isSome ↔ value.IsCell := by
  constructor
  · intro h
    cases value with
    | number value =>
        obtain ⟨cell, hcell⟩ := Option.isSome_iff_exists.mp h
        obtain ⟨n, hn, hrange⟩ := Option.bind_eq_some_iff.mp hcell
        rw [Option.ite_none_right_eq_some] at hrange
        obtain ⟨hfinite, hvalue⟩ := Binary64.toInt?_eq_some hn
        exact ⟨hfinite, n, hvalue, hrange.1⟩
    | bool value => exact trivial
    | _ => exact nomatch h
  · intro h
    cases value with
    | number value =>
        obtain ⟨hfinite, n, hvalue, hleast, hgreatest⟩ := h
        have hinteger : (Literal.number value).integer? = some n := by
          rw [integer?, hvalue, Rat.den_intCast, if_pos ⟨hfinite, rfl⟩, Rat.num_intCast]
        rw [cell?_of_integer? hinteger hleast hgreatest]
        rfl
    | bool value => cases value <;> rfl
    | _ => exact h.elim

theorem isSome_operator?_iff {op : BinaryOp} :
    (operator? op).isSome ↔ op ∈ [.add, .sub, .equal, .notEqual] := by
  cases op <;> decide

theorem Node.fault?_eq_some_iff {node : Node} {error : EmitError} :
    node.fault? = some error ↔ node.Unsupported error := by
  constructor
  · intro h
    unfold Node.fault? at h
    split at h
    next value span =>
      rw [Option.ite_none_left_eq_some] at h
      obtain ⟨hcell, herror⟩ := h
      cases herror
      exact .literal (mt Literal.isSome_cell?_iff.mpr hcell)
    next op _ =>
      rw [Option.ite_none_left_eq_some] at h
      obtain ⟨hop, herror⟩ := h
      cases herror
      exact .operator (mt isSome_operator?_iff.mpr hop)
    next whole hliteral hbinary =>
      cases h
      refine .expr fun hwalked => ?_
      cases whole with
      | literal value span => exact hliteral value span rfl
      | binary left op right => exact hbinary left op right rfl
      | _ => exact nomatch hwalked
    next whole =>
      rw [Option.ite_none_left_eq_some] at h
      obtain ⟨hwalked, herror⟩ := h
      cases herror
      exact .stmt hwalked
  · intro h
    cases h with
    | stmt h => exact if_neg h
    | @expr expr h =>
        cases expr with
        | literal | binary => exact absurd rfl h
        | _ => rfl
    | operator h => exact if_neg (mt isSome_operator?_iff.mp h)
    | literal h => exact if_neg (mt Literal.isSome_cell?_iff.mp h)

theorem Node.fault?_eq_none_iff {node : Node} :
    node.fault? = none ↔ ∀ error, ¬ node.Unsupported error := by
  simp only [← Node.fault?_eq_some_iff]
  exact Option.eq_none_iff_forall_ne_some

/-! ## The walk -/

/-- What happens on the walk over a tree. -/
inductive Visit where
  | reach (node : Node)
  | write (template : List Line)

/-- The node that is reached. -/
def Visit.node? : Visit → Option Node
  | .reach node => some node
  | .write _ => none

/-- The lines that are written. -/
def Visit.lines : Visit → List Line
  | .reach _ => []
  | .write template => template

/-- What happens in an expression. -/
def Expr.visits : Expr → List Visit
  | .literal value span =>
    .reach (.expr (.literal value span)) :: (value.cell?.map (.write <| push ·)).toList
  | .binary left op right =>
    .reach (.expr (.binary left op right)) ::
      (left.visits ++ (right.visits ++ ((operator? op.value).map .write).toList))
  | expr => [.reach (.expr expr)]

mutual

/-- What happens in a statement, with labels from a number on. -/
def Stmt.visits (number : Nat) : Stmt → List Visit
  | .print expr => .reach (.stmt (.print expr)) :: (expr.visits ++ [.write dump])
  | .block body => .reach (.stmt (.block body)) :: Stmt.visitsOf number body
  | .ifThen condition thenBranch =>
    let join := Label.branch number
    .reach (.stmt (.ifThen condition thenBranch)) ::
      (condition.visits ++ .write (jumpIfZero join) ::
        (thenBranch.visits (number + 1) ++ [.write [.label join]]))
  | .ifElse condition thenBranch elseBranch =>
    let join := Label.branch number
    let alternate := Label.branch (number + 1)
    .reach (.stmt (.ifElse condition thenBranch elseBranch)) ::
      (condition.visits ++ .write (jumpIfZero alternate) ::
        (thenBranch.visits (number + 2) ++ .write (otherwise join alternate) ::
          (elseBranch.visits (number + 2 + labels thenBranch) ++ [.write [.label join]])))
  | stmt => [.reach (.stmt stmt)]

/-- What happens in statements, with labels from a number on. -/
def Stmt.visitsOf (number : Nat) : List Stmt → List Visit
  | [] => []
  | stmt :: rest => stmt.visits number ++ Stmt.visitsOf (number + labels stmt) rest

end

namespace Visit

/-- The nodes that are reached on a walk. -/
def nodesOf (visits : List Visit) : List Node :=
  visits.filterMap node?

/-- The lines that are written on a walk. -/
def linesOf (visits : List Visit) : List Line :=
  visits.flatMap lines

@[simp] theorem nodesOf_nil : nodesOf [] = [] := rfl

@[simp] theorem nodesOf_reach (node : Node) (rest : List Visit) :
    nodesOf (.reach node :: rest) = node :: nodesOf rest := rfl

@[simp] theorem nodesOf_write (template : List Line) (rest : List Visit) :
    nodesOf (.write template :: rest) = nodesOf rest := rfl

@[simp] theorem nodesOf_append (front behind : List Visit) :
    nodesOf (front ++ behind) = nodesOf front ++ nodesOf behind :=
  List.filterMap_append

@[simp] theorem nodesOf_map_write (template : Option (List Line)) :
    nodesOf (template.map write).toList = [] := by
  cases template <;> rfl

@[simp] theorem linesOf_write (template : List Line) (rest : List Visit) :
    linesOf (.write template :: rest) = template ++ linesOf rest := rfl

/-- The steps of a visit before further steps. -/
def steps : Visit → (rest : List Step) → List Step
  | .reach node, rest =>
    match node.fault? with
    | some fault => .error fault :: rest
    | none => rest
  | .write template, rest => Assembly.write template rest

theorem steps_of_fault? {node : Node} {fault : EmitError} (h : node.fault? = some fault)
    (rest : List Step) : steps (.reach node) rest = .error fault :: rest := by
  rw [steps, h]

theorem steps_of_supported {node : Node} (h : node.fault? = none) (rest : List Step) :
    steps (.reach node) rest = rest := by
  rw [steps, h]

end Visit

theorem Expr.nodesOf_visits (expr : Expr) : Visit.nodesOf expr.visits = expr.reached := by
  fun_induction Expr.reached expr with
  | case1 left op right ihLeft ihRight => simp [visits, ihLeft, ihRight]
  | case2 expr hbinary =>
      cases expr with
      | literal value span => cases hcell : value.cell? <;> simp [visits, hcell]
      | binary left op right => exact absurd rfl (hbinary left op right)
      | _ => rfl

mutual

theorem Stmt.nodesOf_visits (number : Nat) :
    ∀ stmt : Stmt, Visit.nodesOf (stmt.visits number) = stmt.reached
  | .print expr => by simp [visits, reached, Expr.nodesOf_visits]
  | .block body => by simp [visits, reached, Stmt.nodesOf_visitsOf]
  | .ifThen condition thenBranch => by
      simp [visits, reached, Expr.nodesOf_visits, Stmt.nodesOf_visits _ thenBranch]
  | .ifElse condition thenBranch elseBranch => by
      simp [visits, reached, Expr.nodesOf_visits, Stmt.nodesOf_visits _ thenBranch,
        Stmt.nodesOf_visits _ elseBranch]
  | .expression _ | .varDef _ _ | .whileLoop _ _ | .funDef _ | .ret _ _ | .classDef _ _ => rfl

theorem Stmt.nodesOf_visitsOf (number : Nat) :
    ∀ statements : List Stmt,
      Visit.nodesOf (Stmt.visitsOf number statements) = Stmt.reachedOf statements
  | [] => rfl
  | stmt :: rest => by
      simp [visitsOf, reachedOf, Stmt.nodesOf_visits _ stmt, Stmt.nodesOf_visitsOf _ rest]

end

namespace Assembly

open Visit

section

variable {rest other : List Step}

theorem ofSteps_write_congr {template : List Line}
    (h : Emission.ofSteps rest = Emission.ofSteps other) :
    Emission.ofSteps (write template rest) = Emission.ofSteps (write template other) := by
  rw [ofSteps_write, ofSteps_write, h]

/-- What is emitted of an expression is what happens on its walk. -/
theorem ofSteps_ofExpr {expr : Expr} (h : Emission.ofSteps rest = Emission.ofSteps other) :
    Emission.ofSteps (ofExpr expr rest) = Emission.ofSteps (expr.visits.foldr steps other) := by
  fun_induction ofExpr expr rest generalizing other with
  | case1 value span rest cell hcell =>
      have hnode : (Node.expr (.literal value span)).fault? = none := by simp [Node.fault?, hcell]
      rw [Expr.visits, List.foldr_cons, steps_of_supported hnode, hcell]
      exact ofSteps_write_congr h
  | case2 value span rest hnone =>
      have hnode : (Node.expr (.literal value span)).fault? =
          some (.unsupportedLiteral value span) := by
        simp [Node.fault?, hnone]
      rw [Expr.visits, List.foldr_cons, steps_of_fault? hnode]
      rfl
  | case3 left op right rest template htemplate ihRight ihLeft =>
      have hnode : (Node.expr (.binary left op right)).fault? = none := by
        simp [Node.fault?, htemplate]
      rw [Expr.visits, List.foldr_cons, steps_of_supported hnode, htemplate, List.foldr_append,
        List.foldr_append]
      exact ihLeft (ihRight (ofSteps_write_congr h))
  | case4 left op right rest hnone =>
      have hnode : (Node.expr (.binary left op right)).fault? = some (.unsupportedOperator op) := by
        simp [Node.fault?, hnone]
      rw [Expr.visits, List.foldr_cons, steps_of_fault? hnode]
      rfl
  | case5 expr rest hliteral hbinary =>
      cases expr with
      | literal value span => exact absurd rfl (hliteral value span)
      | binary left op right => exact absurd rfl (hbinary left op right)
      | _ => rfl

mutual

/-- What is emitted of a statement is what happens on its walk. -/
theorem ofSteps_ofStmt {number : Nat} {rest other : List Step} :
    ∀ {stmt : Stmt}, Emission.ofSteps rest = Emission.ofSteps other →
      Emission.ofSteps (ofStmt number stmt rest) =
        Emission.ofSteps ((stmt.visits number).foldr steps other)
  | .print expr, h => by
      rw [Stmt.visits, List.foldr_cons, List.foldr_append]
      exact ofSteps_ofExpr (ofSteps_write_congr h)
  | .block body, h => ofSteps_ofStmts h
  | .ifThen condition thenBranch, h => by
      simp only [Stmt.visits, List.foldr_append, List.foldr_cons, List.foldr_nil]
      exact ofSteps_ofExpr <| ofSteps_write_congr <| ofSteps_ofStmt <| ofSteps_write_congr h
  | .ifElse condition thenBranch elseBranch, h => by
      simp only [Stmt.visits, List.foldr_append, List.foldr_cons, List.foldr_nil]
      exact ofSteps_ofExpr <| ofSteps_write_congr <| ofSteps_ofStmt <| ofSteps_write_congr <|
        ofSteps_ofStmt <| ofSteps_write_congr h
  | .expression _, h | .varDef _ _, h | .whileLoop _ _, h | .funDef _, h | .ret _ _, h
  | .classDef _ _, h => rfl

/-- What is emitted of statements is what happens on their walk. -/
theorem ofSteps_ofStmts {number : Nat} {rest other : List Step} :
    ∀ {statements : List Stmt}, Emission.ofSteps rest = Emission.ofSteps other →
      Emission.ofSteps (ofStmts number statements rest) =
        Emission.ofSteps ((Stmt.visitsOf number statements).foldr steps other)
  | [], h => h
  | stmt :: more, h => by
      rw [Stmt.visitsOf, List.foldr_append]
      exact ofSteps_ofStmt (ofSteps_ofStmts h)

end

end

/-- No node that is reached on a walk is unsupported. -/
def Clear (visits : List Visit) : Prop :=
  ∀ node ∈ nodesOf visits, ∀ error, ¬ node.Unsupported error

/-- Either all of a walk is written, or what is before the first unsupported node. -/
theorem ofSteps_foldr (visits : List Visit) (rest : List Step) :
    (Clear visits ∧ Emission.ofSteps (visits.foldr steps rest) =
      ⟨linesOf visits ++ (Emission.ofSteps rest).lines, (Emission.ofSteps rest).fault⟩) ∨
    ∃ before node after error, visits = before ++ .reach node :: after ∧ Clear before ∧
      node.Unsupported error ∧
      Emission.ofSteps (visits.foldr steps rest) = ⟨linesOf before, some error⟩ := by
  induction visits with
  | nil => exact .inl ⟨List.forall_mem_nil _, rfl⟩
  | cons visit visits ih =>
      cases visit with
      | reach node =>
          cases hnode : node.fault? with
          | some error =>
              -- The walk ends here, and nothing of it has been written yet.
              refine .inr ⟨[], node, visits, error, rfl, List.forall_mem_nil _,
                Node.fault?_eq_some_iff.mp hnode, ?_⟩
              rw [List.foldr_cons, steps_of_fault? hnode]
              rfl
          | none =>
              have hsupported := Node.fault?_eq_none_iff.mp hnode
              rw [List.foldr_cons, steps_of_supported hnode]
              obtain ⟨hall, heq⟩ | ⟨before, found, after, error, rfl, hbefore, hfound, heq⟩ := ih
              · exact .inl ⟨List.forall_mem_cons.mpr ⟨hsupported, hall⟩, heq⟩
              · exact .inr ⟨.reach node :: before, found, after, error, rfl,
                  List.forall_mem_cons.mpr ⟨hsupported, hbefore⟩, hfound, heq⟩
      | write template =>
          rw [List.foldr_cons, steps, ofSteps_write]
          obtain ⟨hall, heq⟩ | ⟨before, found, after, error, rfl, hbefore, hfound, heq⟩ := ih
          · refine .inl ⟨hall, ?_⟩
            rw [heq, linesOf_write, List.append_assoc]
          · refine .inr ⟨.write template :: before, found, after, error, rfl, hbefore, hfound, ?_⟩
            rw [heq, linesOf_write]

/-- A program is written whole if no node of it is unsupported, and else up to the first that is. -/
theorem ofTree_cases (statements : List Stmt) :
    (Clear (Stmt.visitsOf 0 statements) ∧ ofTree statements =
      ⟨prologue ++ (linesOf (Stmt.visitsOf 0 statements) ++ epilogue), none⟩) ∨
    ∃ before node after error, Stmt.visitsOf 0 statements = before ++ .reach node :: after ∧
      Clear before ∧ node.Unsupported error ∧
      ofTree statements = ⟨prologue ++ linesOf before, some error⟩ := by
  have hsteps : Emission.ofSteps (ofStmts 0 statements (write epilogue [])) =
      Emission.ofSteps ((Stmt.visitsOf 0 statements).foldr steps (write epilogue [])) :=
    ofSteps_ofStmts rfl
  have htree : ofTree statements =
      ⟨prologue ++ (Emission.ofSteps (ofStmts 0 statements (write epilogue []))).lines,
        (Emission.ofSteps (ofStmts 0 statements (write epilogue []))).fault⟩ :=
    ofSteps_write _ _
  rw [hsteps] at htree
  obtain ⟨hall, heq⟩ | ⟨before, node, after, error, hvisits, hbefore, hnode, heq⟩ :=
    ofSteps_foldr (Stmt.visitsOf 0 statements) (write epilogue [])
  · rw [heq] at htree
    exact .inl ⟨hall, htree⟩
  · rw [heq] at htree
    exact .inr ⟨before, node, after, error, hvisits, hbefore, hnode, htree⟩

end Assembly

end Stacklet
