import Mathlib.Data.List.Nodup
import Stacklet.Proofs.Assembly.Execution
import Stacklet.Proofs.Tree.Meaning

/-! # The code of trees does what the trees mean

Code of an expression pushes its value; code of a statement prints and leaves the stack as it is.
Both are put together construct by construct, whatever code is around them. The labels of a
statement are numbered from a number on, each defined once, so no two statements define the same
label.
-/

namespace Stacklet.Assembly

/-! ## Expressions -/

/-- Code that pushes a value. -/
structure Evaluates (code : List Line) (value : Cell) : Prop where
  legible : ∀ line ∈ code, line.Legible
  definitions_eq : definitions code = []
  leads : ∀ {clobber program below stack output rest}, below <:+ stack →
    Leads clobber program below ⟨code ++ rest, stack, output⟩ ⟨rest, value :: stack, output⟩

theorem evaluates_push (value : Cell) : Evaluates (push value) value where
  legible := legible_push value
  definitions_eq := definitions_push value
  leads := leads_push

/-- A template that replaces two values by the result of an operator. -/
structure Applies (template : List Line) (op : BinaryOp) : Prop where
  legible : ∀ line ∈ template, line.Legible
  definitions_eq : definitions template = []
  leads : ∀ (left right : Cell), ∃ value, op.apply? left right = some value ∧
    ∀ {clobber program below stack output rest}, below <:+ stack →
      Leads clobber program below ⟨template ++ rest, right :: left :: stack, output⟩
        ⟨rest, value :: stack, output⟩

theorem applies_of_operator? {op : BinaryOp} {template : List Line}
    (h : operator? op = some template) : Applies template op := by
  cases op with
  | add =>
      cases h
      exact ⟨legible_fixed plus (by simp [fixedTemplates]), definitions_plus,
        fun _ _ => ⟨_, rfl, leads_plus⟩⟩
  | sub =>
      cases h
      exact ⟨legible_fixed minus (by simp [fixedTemplates]), definitions_minus,
        fun _ _ => ⟨_, rfl, leads_minus⟩⟩
  | equal =>
      cases h
      exact ⟨legible_fixed equal (by simp [fixedTemplates]), definitions_compare _ _ _,
        fun _ _ => ⟨_, rfl, leads_compare rfl rfl⟩⟩
  | notEqual =>
      cases h
      exact ⟨legible_fixed notEqual (by simp [fixedTemplates]), definitions_compare _ _ _,
        fun _ _ => ⟨_, rfl, leads_compare rfl rfl⟩⟩
  | _ => cases h

/-- Operands first, the left one below, then the operator. -/
theorem Evaluates.binary {op : BinaryOp} {leftCode rightCode template : List Line}
    {left right : Cell} (hleft : Evaluates leftCode left) (hright : Evaluates rightCode right)
    (hop : Applies template op) :
    ∃ value, op.apply? left right = some value ∧
      Evaluates (leftCode ++ (rightCode ++ template)) value := by
  obtain ⟨value, hvalue, hleads⟩ := hop.leads left right
  refine ⟨value, hvalue, ?_, ?_, ?_⟩
  · exact List.forall_mem_append.mpr
      ⟨hleft.legible, List.forall_mem_append.mpr ⟨hright.legible, hop.legible⟩⟩
  · rw [definitions_append, definitions_append, hleft.definitions_eq, hright.definitions_eq,
      hop.definitions_eq]
    rfl
  · intro clobber program below stack output rest h
    simp only [List.append_assoc]
    exact (hleft.leads h).trans <| (hright.leads (suffix_cons_of_suffix h)).trans (hleads h)

/-! ## Statements -/

/-- Code that prints numbers and leaves the stack as it is, with as many labels as given, numbered
from a number on. -/
structure Executes (code : List Line) (number count : Nat) (printed : List Cell) : Prop where
  legible : ∀ line ∈ code, line.Legible
  definitions_perm : (definitions code).Perm ((List.range' number count).map .branch)
  leads : ∀ {clobber program below output rest}, (definitions program).Nodup →
    code ++ rest <:+ program →
    Leads clobber program below ⟨code ++ rest, below, output⟩ ⟨rest, below, output ++ printed⟩

theorem executes_nil (number : Nat) : Executes [] number 0 [] where
  legible := List.forall_mem_nil _
  definitions_perm := .nil
  leads := by
    intro clobber program below output rest _ _
    rw [List.append_nil]
    exact .refl List.suffix_rfl

theorem Executes.append {first second : List Line} {number firstCount secondCount : Nat}
    {printed more : List Cell} (hfirst : Executes first number firstCount printed)
    (hsecond : Executes second (number + firstCount) secondCount more) :
    Executes (first ++ second) number (firstCount + secondCount) (printed ++ more) where
  legible := List.forall_mem_append.mpr ⟨hfirst.legible, hsecond.legible⟩
  definitions_perm := by
    rw [definitions_append, ← List.range'_append_1, List.map_append]
    exact hfirst.definitions_perm.append hsecond.definitions_perm
  leads := by
    intro clobber program below output rest hnodup hcode
    rw [List.append_assoc] at hcode ⊢
    rw [← List.append_assoc output]
    exact (hfirst.leads hnodup hcode).trans
      (hsecond.leads hnodup ((List.suffix_append _ _).trans hcode))

theorem Evaluates.print {code : List Line} {value : Cell} (h : Evaluates code value)
    (number : Nat) : Executes (code ++ dump) number 0 [value] where
  legible := List.forall_mem_append.mpr ⟨h.legible, legible_fixed dump (by simp [fixedTemplates])⟩
  definitions_perm := by
    rw [definitions_append, h.definitions_eq, definitions_dump]
    exact .nil
  leads := by
    intro clobber program below output rest _ _
    rw [List.append_assoc]
    exact (h.leads List.suffix_rfl).trans (leads_dump List.suffix_rfl)

/-- A conditional with one arm, which a jump to the label behind it leaves out. -/
theorem Evaluates.ifThen {condition code : List Line} {value : Cell} {number count : Nat}
    {printed : List Cell} (hcondition : Evaluates condition value)
    (hcode : Executes code (number + 1) count printed) :
    Executes (condition ++ (jumpIfZero (.branch number) ++ (code ++ [.label (.branch number)])))
      number (1 + count) (if value = 0 then [] else printed) where
  legible := List.forall_mem_append.mpr ⟨hcondition.legible, List.forall_mem_append.mpr
    ⟨legible_jumpIfZero _, List.forall_mem_append.mpr
      ⟨hcode.legible, List.forall_mem_singleton.mpr (Line.legible_label _)⟩⟩⟩
  definitions_perm := by
    simp only [definitions_append, hcondition.definitions_eq, definitions_jumpIfZero,
      definitions_label, definitions_nil, List.nil_append]
    rw [Nat.add_comm 1, List.range'_succ, List.map_cons]
    exact (List.perm_append_singleton _ _).trans (hcode.definitions_perm.cons _)
  leads := by
    intro clobber program below output rest hnodup hprogram
    simp only [List.append_assoc, List.singleton_append] at hprogram ⊢
    have hjump := (List.suffix_append _ _).trans hprogram
    have harm := (List.suffix_append _ _).trans hjump
    have hlabel := (List.suffix_append _ _).trans harm
    have htarget := behind_of_nodup hnodup hlabel
    refine (hcondition.leads List.suffix_rfl).trans ?_
    refine (leads_jumpIfZero htarget List.suffix_rfl).trans ?_
    by_cases hzero : value = 0
    · rw [if_pos hzero, if_pos hzero, List.append_nil]
      exact .refl List.suffix_rfl
    · rw [if_neg hzero, if_neg hzero]
      exact (hcode.leads hnodup harm).trans (leads_label List.suffix_rfl)

/-- A conditional with two arms. The first label is behind all of it, the second before the other
arm. -/
theorem Evaluates.ifElse {condition code other : List Line} {value : Cell}
    {number count otherCount : Nat} {printed otherPrinted : List Cell}
    (hcondition : Evaluates condition value) (hcode : Executes code (number + 2) count printed)
    (hother : Executes other (number + 2 + count) otherCount otherPrinted) :
    Executes (condition ++ (jumpIfZero (.branch (number + 1)) ++ (code ++
        (otherwise (.branch number) (.branch (number + 1)) ++ (other ++
          [.label (.branch number)])))))
      number (2 + count + otherCount) (if value = 0 then otherPrinted else printed) where
  legible := List.forall_mem_append.mpr ⟨hcondition.legible, List.forall_mem_append.mpr
    ⟨legible_jumpIfZero _, List.forall_mem_append.mpr ⟨hcode.legible, List.forall_mem_append.mpr
      ⟨legible_otherwise _ _, List.forall_mem_append.mpr
        ⟨hother.legible, List.forall_mem_singleton.mpr (Line.legible_label _)⟩⟩⟩⟩⟩
  definitions_perm := by
    have hrange : List.range' number (2 + count + otherCount) = number :: (number + 1) ::
        (List.range' (number + 2) count ++ List.range' (number + 2 + count) otherCount) := by
      rw [List.range'_append_1, Nat.add_assoc, Nat.add_comm 2]
      rfl
    -- In the text the second label comes before the first, with an arm on each side.
    have harms := hcode.definitions_perm.append hother.definitions_perm
    simp only [definitions_append, hcondition.definitions_eq, definitions_jumpIfZero,
      definitions_otherwise, definitions_label, definitions_nil, List.nil_append,
      List.singleton_append]
    rw [hrange, List.map_cons, List.map_cons, List.map_append]
    refine List.perm_middle.trans (.trans (.cons _ ?_) (.swap _ _ _))
    rw [← List.append_assoc]
    exact (List.perm_append_singleton _ _).trans (harms.cons _)
  leads := by
    intro clobber program below output rest hnodup hprogram
    simp only [List.append_assoc, List.singleton_append] at hprogram ⊢
    have hjump := (List.suffix_append _ _).trans hprogram
    have harm := (List.suffix_append _ _).trans hjump
    have hotherwise := (List.suffix_append _ _).trans harm
    have hlanding := (suffix_otherwise _ _ _).trans hotherwise
    have hotherArm := (List.suffix_cons _ _).trans hlanding
    have hlabel := (List.suffix_append _ _).trans hotherArm
    have htarget := behind_of_nodup hnodup hlanding
    have hexit := behind_of_nodup hnodup hlabel
    refine (hcondition.leads List.suffix_rfl).trans ?_
    refine (leads_jumpIfZero htarget List.suffix_rfl).trans ?_
    by_cases hzero : value = 0
    · rw [if_pos hzero, if_pos hzero]
      exact (hother.leads hnodup hotherArm).trans (leads_label List.suffix_rfl)
    · rw [if_neg hzero, if_neg hzero]
      exact (hcode.leads hnodup harm).trans (leads_otherwise hexit List.suffix_rfl)

/-! ## Trees -/

/-- Steps without a fault. -/
def Faultless (steps : List Step) : Prop :=
  ∀ step ∈ steps, step.fault? = none

theorem faultless_write {template : List Line} {rest : List Step} :
    Faultless (write template rest) ↔ Faultless rest := by
  have htemplate : ∀ step ∈ template.map Except.ok, Step.fault? step = none := by
    intro step hstep
    obtain ⟨line, -, rfl⟩ := List.mem_map.mp hstep
    rfl
  rw [Faultless, write, List.forall_mem_append]
  exact and_iff_right htemplate

theorem not_faultless_error {error : EmitError} {rest : List Step} :
    ¬ Faultless (.error error :: rest) := by
  intro h
  exact nomatch h _ List.mem_cons_self

theorem write_append (first second : List Line) (rest : List Step) :
    write (first ++ second) rest = write first (write second rest) := by
  rw [write, write, write, List.map_append, List.append_assoc]

/-- An expression without a fault has a value, and its steps are code that pushes it. -/
theorem exists_evaluates {expr : Expr} {rest : List Step} (h : Faultless (ofExpr expr rest)) :
    ∃ code value, ofExpr expr rest = write code rest ∧ expr.value? = some value ∧
      Evaluates code value := by
  fun_induction ofExpr expr rest with
  | case1 rest value span cell hcell =>
      exact ⟨push cell, cell, rfl, Literal.integer?_of_cell? hcell, evaluates_push cell⟩
  | case2 => exact absurd h not_faultless_error
  | case3 rest left op right template htemplate ihRight ihLeft =>
      obtain ⟨leftCode, leftValue, hleftSteps, hleftValue, hleft⟩ := ihLeft h
      rw [hleftSteps, faultless_write] at h
      obtain ⟨rightCode, rightValue, hrightSteps, hrightValue, hright⟩ := ihRight h
      obtain ⟨value, hvalue, hcode⟩ := hleft.binary hright (applies_of_operator? htemplate)
      refine ⟨_, value, ?_, ?_, hcode⟩
      · rw [hleftSteps, hrightSteps, write_append, write_append]
      · rw [Expr.value?, hleftValue, hrightValue]
        exact hvalue
  | case4 => exact absurd h not_faultless_error
  | case5 => exact absurd h not_faultless_error

mutual

/-- A statement without a fault prints something, and its steps are code that prints it. -/
theorem exists_executes {number : Nat} {rest : List Step} :
    ∀ {stmt : Stmt}, Faultless (ofStmt number stmt rest) →
      ∃ code printed, ofStmt number stmt rest = write code rest ∧ stmt.printed? = some printed ∧
        Executes code number (labels stmt) printed
  | .print expr, h => by
      rw [ofStmt] at h ⊢
      obtain ⟨code, value, hsteps, hvalue, hcode⟩ := exists_evaluates h
      refine ⟨_, [value], ?_, ?_, hcode.print number⟩
      · rw [hsteps, write_append]
      · rw [Stmt.printed?, hvalue]
        rfl
  | .block body, h => by
      rw [ofStmt] at h ⊢
      rw [Stmt.printed?, labels]
      exact exists_executes_list h
  | .ifThen condition thenBranch, h => by
      rw [ofStmt] at h ⊢
      obtain ⟨conditionCode, value, hsteps, hvalue, hcondition⟩ := exists_evaluates h
      rw [hsteps, faultless_write, faultless_write] at h
      obtain ⟨code, printed, hthenSteps, hprinted, hcode⟩ := exists_executes h
      refine ⟨_, _, ?_, ?_, hcondition.ifThen hcode⟩
      · rw [hsteps, hthenSteps, write_append, write_append, write_append]
      · rw [Stmt.printed?, hvalue, hprinted]
        exact (apply_ite some (value = 0) [] printed).symm
  | .ifElse condition thenBranch elseBranch, h => by
      rw [ofStmt] at h ⊢
      -- Steps hold all that follows, so each part is freed of faults by the code before it.
      obtain ⟨conditionCode, value, hsteps, hvalue, hcondition⟩ := exists_evaluates h
      rw [hsteps, faultless_write, faultless_write] at h
      obtain ⟨code, printed, hthenSteps, hprinted, hcode⟩ := exists_executes h
      rw [hthenSteps, faultless_write, faultless_write] at h
      obtain ⟨other, otherPrinted, helseSteps, hotherPrinted, hother⟩ := exists_executes h
      refine ⟨_, _, ?_, ?_, hcondition.ifElse hcode hother⟩
      · rw [hsteps, hthenSteps, helseSteps]
        simp only [write_append]
      · rw [Stmt.printed?, hvalue, hprinted, hotherPrinted]
        exact (apply_ite some (value = 0) otherPrinted printed).symm
  | .expression _, h | .varDef _ _, h | .whileLoop _ _, h | .funDef _, h | .ret _ _, h
  | .classDef _ _, h => absurd h not_faultless_error

/-- Statements without a fault print something, and their steps are code that prints it. -/
theorem exists_executes_list {number : Nat} {rest : List Step} :
    ∀ {statements : List Stmt}, Faultless (ofStmts number statements rest) →
      ∃ code printed, ofStmts number statements rest = write code rest ∧
        printedBy? statements = some printed ∧ Executes code number (labelsOf statements) printed
  | [], h => ⟨[], [], rfl, rfl, executes_nil number⟩
  | stmt :: more, h => by
      rw [ofStmts] at h ⊢
      obtain ⟨code, printed, hsteps, hprinted, hcode⟩ := exists_executes h
      rw [hsteps, faultless_write] at h
      obtain ⟨moreCode, morePrinted, hmoreSteps, hmorePrinted, hmoreCode⟩ := exists_executes_list h
      refine ⟨_, _, ?_, ?_, hcode.append hmoreCode⟩
      · rw [hsteps, hmoreSteps, write_append]
      · rw [printedBy?, hprinted, hmorePrinted]
        rfl

end

/-- A template is written before what is emitted of further steps. -/
theorem ofSteps_write (template : List Line) (rest : List Step) :
    Emission.ofSteps (write template rest) =
      ⟨template ++ (Emission.ofSteps rest).lines, (Emission.ofSteps rest).fault⟩ := by
  induction template with
  | nil => rfl
  | cons line template ih =>
      calc Emission.ofSteps (write (line :: template) rest)
          = ⟨line :: (Emission.ofSteps (write template rest)).lines,
              (Emission.ofSteps (write template rest)).fault⟩ := rfl
        _ = ⟨line :: template ++ (Emission.ofSteps rest).lines, (Emission.ofSteps rest).fault⟩ := by
            rw [ih, List.cons_append]

/-- Steps that are all code are written whole. -/
theorem lines_ofSteps (code : List Line) : (Emission.ofSteps (write code [])).lines = code := by
  rw [ofSteps_write]
  exact List.append_nil code

/-- No label is defined twice in the program of a tree. -/
theorem Executes.nodup_definitions {code : List Line} {number count : Nat} {printed : List Cell}
    (h : Executes code number count printed) :
    (definitions (prologue ++ (code ++ epilogue))).Nodup := by
  have hbranches : ((List.range' number count).map Label.branch).Nodup :=
    (List.nodup_range' 1).map fun _ _ heq => Label.branch.inj heq
  rw [definitions_append, definitions_append, definitions_prologue, definitions_epilogue,
    List.append_nil]
  refine List.nodup_append.mpr ⟨by decide, h.definitions_perm.nodup_iff.mpr hbranches, ?_⟩
  intro place hplace other hother
  obtain ⟨index, -, rfl⟩ := List.mem_map.mp (h.definitions_perm.mem_iff.mp hother)
  rintro rfl
  simp at hplace

/-- The tree compiler is correct: what code is made of prints something, and the code prints just
that on any stack, which it leaves as it is. -/
theorem computes_of_ofTree {statements : List Stmt} (h : (ofTree statements).fault = none) :
    ∃ printed, printedBy? statements = some printed ∧
      Computes (ofTree statements).text [] [] printed := by
  have hfaultless : Faultless (write prologue (ofStmts 0 statements (write epilogue []))) :=
    List.findSome?_eq_none_iff.mp h
  obtain ⟨code, printed, hsteps, hprinted, hcode⟩ :=
    exists_executes_list (faultless_write.mp hfaultless)
  have hlines : (ofTree statements).lines = prologue ++ (code ++ epilogue) := by
    rw [ofTree, hsteps, ← write_append, ← write_append, lines_ofSteps, List.append_assoc]
  refine ⟨printed, hprinted, ?_⟩
  rw [Emission.text, hlines]
  refine computes_of_leads hcode.legible ?_
  intro clobber below
  exact hcode.leads hcode.nodup_definitions (List.suffix_append _ _)

/-- Both arms of a conditional have labels of their own. -/
theorem computes_of_ofTree_nested :
    let zero : Expr := .literal (.bool false) none
    let one : Expr := .literal (.bool true) none
    let difference : Expr := .binary zero ⟨.sub, ⟨1, 0, 1⟩⟩ one
    let tree : List Stmt :=
      [.ifElse zero (.ifThen one (.print zero))
          (.ifElse difference (.print difference) (.print one)),
        .print (.binary one ⟨.notEqual, ⟨1, 0, 2⟩⟩ zero)]
    (ofTree tree).fault = none ∧ Computes (ofTree tree).text [] [] [-1, 1] := by
  intro zero one difference tree
  have hfault : (ofTree tree).fault = none := rfl
  obtain ⟨printed, hprinted, hcomputes⟩ := computes_of_ofTree hfault
  cases hprinted
  exact ⟨hfault, hcomputes⟩

end Stacklet.Assembly
