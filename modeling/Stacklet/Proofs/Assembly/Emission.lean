import Stacklet.Proofs.Assembly.OfTree
import Stacklet.Proofs.Tree.Nodes

/-! # What is emitted of a tree

The walk over a tree yields lines and faults before whatever follows. Its lines are a function of
the statement and the number of its first label, and there is no fault in exactly the trees that
are supported throughout.
-/

namespace Stacklet

open Assembly

/-! ## Supported trees -/

/-- Expressions that code can be made of. -/
def Expr.Supported : Expr → Prop
  | .literal value _ => value.cell?.isSome
  | .binary left op right => (operator? op.value).isSome ∧ left.Supported ∧ right.Supported
  | _ => False

mutual

/-- Statements that code can be made of. -/
def Stmt.Supported : Stmt → Prop
  | .print expr => expr.Supported
  | .block body => Stmt.AllSupported body
  | .ifThen condition thenBranch => condition.Supported ∧ thenBranch.Supported
  | .ifElse condition thenBranch elseBranch =>
    condition.Supported ∧ thenBranch.Supported ∧ elseBranch.Supported
  | _ => False

/-- Statements that code can be made of, one after the other. -/
def Stmt.AllSupported : List Stmt → Prop
  | [] => True
  | stmt :: rest => stmt.Supported ∧ Stmt.AllSupported rest

end

/-! ## Lines -/

/-- The lines of an expression. -/
def Expr.code : Expr → List Line
  | .literal value _ => (value.cell?.map push).getD []
  | .binary left op right =>
    match operator? op.value with
    | some template => left.code ++ (right.code ++ template)
    | none => []
  | _ => []

mutual

/-- The lines of a statement, with labels from a number on. -/
def Stmt.code (number : Nat) : Stmt → List Line
  | .print expr => expr.code ++ dump
  | .block body => Stmt.codeOf number body
  | .ifThen condition thenBranch =>
    let join := Label.branch number
    condition.code ++ (jumpIfZero join ++ (thenBranch.code (number + 1) ++ [.label join]))
  | .ifElse condition thenBranch elseBranch =>
    let join := Label.branch number
    let alternate := Label.branch (number + 1)
    condition.code ++ (jumpIfZero alternate ++ (thenBranch.code (number + 2) ++
      (otherwise join alternate ++ (elseBranch.code (number + 2 + labels thenBranch) ++
        [.label join]))))
  | _ => []

/-- The lines of statements, with labels from a number on. -/
def Stmt.codeOf (number : Nat) : List Stmt → List Line
  | [] => []
  | stmt :: rest => stmt.code number ++ Stmt.codeOf (number + labels stmt) rest

end

namespace Assembly

/-- A supported expression adds no fault, and its steps are its lines. -/
theorem ofExpr_eq_write {expr : Expr} (h : expr.Supported) (rest : List Step) :
    ofExpr expr rest = write expr.code rest := by
  fun_induction ofExpr expr rest with
  | case1 rest value span cell hcell => rw [Expr.code, hcell, Option.map_some, Option.getD_some]
  | case2 rest value span hnone =>
      rw [Expr.Supported, hnone] at h
      cases h
  | case3 rest left op right template htemplate ihRight ihLeft =>
      rw [ihLeft h.2.1, ihRight h.2.2, Expr.code, htemplate, write_append, write_append]
  | case4 rest left op right hnone =>
      rw [Expr.Supported, hnone] at h
      cases h.1
  | case5 expr rest hliteral hbinary =>
      cases expr with
      | literal value span => exact absurd rfl (hliteral value span)
      | binary left op right => exact absurd rfl (hbinary left op right)
      | _ => exact h.elim

theorem supported_of_faultless_expr {expr : Expr} {rest : List Step}
    (h : Faultless (ofExpr expr rest)) : expr.Supported ∧ Faultless rest := by
  fun_induction ofExpr expr rest with
  | case1 rest value span cell hcell =>
      rw [Expr.Supported, hcell]
      exact ⟨rfl, faultless_write.mp h⟩
  | case3 rest left op right template htemplate ihRight ihLeft =>
      obtain ⟨hleft, hbehind⟩ := ihLeft h
      obtain ⟨hright, hbehind⟩ := ihRight hbehind
      rw [Expr.Supported, htemplate]
      exact ⟨⟨rfl, hleft, hright⟩, faultless_write.mp hbehind⟩
  | case2 => exact absurd h not_faultless_error
  | case4 => exact absurd h not_faultless_error
  | case5 => exact absurd h not_faultless_error

mutual

/-- A supported statement adds no fault, and its steps are its lines. -/
theorem ofStmt_eq_write {number : Nat} {rest : List Step} :
    ∀ {stmt : Stmt}, stmt.Supported → ofStmt number stmt rest = write (stmt.code number) rest
  | .print expr, h => by
      rw [ofStmt, ofExpr_eq_write h, Stmt.code, write_append]
  | .block body, h => by
      rw [ofStmt, Stmt.code, ofStmts_eq_write h]
  | .ifThen condition thenBranch, h => by
      rw [ofStmt, ofExpr_eq_write h.1, ofStmt_eq_write h.2, Stmt.code]
      simp only [write_append]
  | .ifElse condition thenBranch elseBranch, h => by
      rw [ofStmt, ofExpr_eq_write h.1, ofStmt_eq_write h.2.1, ofStmt_eq_write h.2.2, Stmt.code]
      simp only [write_append]
  | .expression _, h | .varDef _ _, h | .whileLoop _ _, h | .funDef _, h | .ret _ _, h
  | .classDef _ _, h => h.elim

/-- Supported statements add no fault, and their steps are their lines. -/
theorem ofStmts_eq_write {number : Nat} {rest : List Step} :
    ∀ {statements : List Stmt}, Stmt.AllSupported statements →
      ofStmts number statements rest = write (Stmt.codeOf number statements) rest
  | [], _ => rfl
  | stmt :: more, h => by
      rw [ofStmts, ofStmt_eq_write h.1, ofStmts_eq_write h.2, Stmt.codeOf, write_append]

end

mutual

theorem supported_of_faultless {number : Nat} {rest : List Step} :
    ∀ {stmt : Stmt}, Faultless (ofStmt number stmt rest) → stmt.Supported ∧ Faultless rest
  | .print expr, h => by
      obtain ⟨hexpr, hbehind⟩ := supported_of_faultless_expr h
      exact ⟨hexpr, faultless_write.mp hbehind⟩
  | .block body, h => allSupported_of_faultless h
  | .ifThen condition thenBranch, h => by
      obtain ⟨hcondition, hbehind⟩ := supported_of_faultless_expr h
      obtain ⟨hthen, hbehind⟩ := supported_of_faultless (faultless_write.mp hbehind)
      exact ⟨⟨hcondition, hthen⟩, faultless_write.mp hbehind⟩
  | .ifElse condition thenBranch elseBranch, h => by
      obtain ⟨hcondition, hbehind⟩ := supported_of_faultless_expr h
      obtain ⟨hthen, hbehind⟩ := supported_of_faultless (faultless_write.mp hbehind)
      obtain ⟨helse, hbehind⟩ := supported_of_faultless (faultless_write.mp hbehind)
      exact ⟨⟨hcondition, hthen, helse⟩, faultless_write.mp hbehind⟩
  | .expression _, h | .varDef _ _, h | .whileLoop _ _, h | .funDef _, h | .ret _ _, h
  | .classDef _ _, h => absurd h not_faultless_error

theorem allSupported_of_faultless {number : Nat} {rest : List Step} :
    ∀ {statements : List Stmt}, Faultless (ofStmts number statements rest) →
      Stmt.AllSupported statements ∧ Faultless rest
  | [], h => ⟨trivial, h⟩
  | stmt :: more, h => by
      obtain ⟨hstmt, hbehind⟩ := supported_of_faultless h
      obtain ⟨hmore, hbehind⟩ := allSupported_of_faultless hbehind
      exact ⟨⟨hstmt, hmore⟩, hbehind⟩

end

/-- Steps that are all code are written whole and end in no fault. -/
theorem ofSteps_write_nil (code : List Line) : Emission.ofSteps (write code []) = ⟨code, none⟩ := by
  rw [ofSteps_write]
  exact congrArg (Emission.mk · none) (List.append_nil code)

/-- The lines of a supported program are its code in the frame. -/
theorem ofTree_of_allSupported {statements : List Stmt} (h : Stmt.AllSupported statements) :
    ofTree statements = ⟨prologue ++ (Stmt.codeOf 0 statements ++ epilogue), none⟩ := by
  rw [ofTree, ofStmts_eq_write h, ← write_append, ← write_append, ofSteps_write_nil,
    List.append_assoc]

/-- Code can be made of the supported programs only. -/
theorem allSupported_of_fault_eq_none {statements : List Stmt}
    (h : (ofTree statements).fault = none) : Stmt.AllSupported statements := by
  have hfaultless : Faultless (write prologue (ofStmts 0 statements (write epilogue []))) :=
    List.findSome?_eq_none_iff.mp h
  exact (allSupported_of_faultless (faultless_write.mp hfaultless)).1

end Assembly

end Stacklet
