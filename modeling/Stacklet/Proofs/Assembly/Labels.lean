import Stacklet.Proofs.Assembly.Machine

/-! # Labels of a program

A jump goes behind the first definition of its label. Where no label is defined twice, that is the
only definition, so a jump finds it from anywhere in the program.
-/

namespace Stacklet.Assembly

/-- The label that a line defines. -/
def Line.definition? : Line → Option Label
  | label place => some place
  | _ => none

/-- The labels that lines define, in order. -/
def definitions (lines : List Line) : List Label :=
  lines.filterMap Line.definition?

@[simp] theorem definitions_nil : definitions [] = [] := rfl

@[simp] theorem definitions_append (left right : List Line) :
    definitions (left ++ right) = definitions left ++ definitions right :=
  List.filterMap_append

@[simp] theorem definitions_label (place : Label) (rest : List Line) :
    definitions (.label place :: rest) = place :: definitions rest := rfl

@[simp] theorem definitions_prologue : definitions prologue = [.dump, .digits, .main] := rfl

@[simp] theorem definitions_epilogue : definitions epilogue = [] := rfl

@[simp] theorem definitions_plus : definitions plus = [] := rfl

@[simp] theorem definitions_minus : definitions minus = [] := rfl

@[simp] theorem definitions_compare (title : String) (ifEqual ifNot : Int) :
    definitions (compare title ifEqual ifNot) = [] := rfl

@[simp] theorem definitions_dump : definitions dump = [] := rfl

@[simp] theorem definitions_push (value : Cell) : definitions (push value) = [] := by
  simp only [push]
  split <;> rfl

@[simp] theorem definitions_jumpIfZero (target : Label) :
    definitions (jumpIfZero target) = [] := rfl

@[simp] theorem definitions_otherwise (exit landing : Label) :
    definitions (otherwise exit landing) = [landing] := rfl

theorem suffix_otherwise (exit landing : Label) (rest : List Line) :
    .label landing :: rest <:+ otherwise exit landing ++ rest :=
  List.suffix_append [.title "else", .code (.jump .always exit)] (.label landing :: rest)

/-- The first definition of a label is the one that a jump goes behind. -/
theorem behind_append {place : Label} {front rest : List Line} (h : place ∉ definitions front) :
    behind place (front ++ .label place :: rest) = some rest := by
  induction front with
  | nil => simp [behind]
  | cons line front ih =>
      cases line with
      | label other =>
          simp only [definitions_label, List.mem_cons, not_or] at h
          rw [List.cons_append, behind, if_neg (Ne.symm h.1)]
          exact ih h.2
      | _ => exact ih h

/-- Where no label is defined twice, a jump goes behind any definition of its label. -/
theorem behind_of_nodup {place : Label} {rest program : List Line}
    (hnodup : (definitions program).Nodup) (h : .label place :: rest <:+ program) :
    behind place program = some rest := by
  obtain ⟨front, rfl⟩ := h
  apply behind_append
  rw [definitions_append, definitions_label] at hnodup
  intro hmem
  exact (List.nodup_append.mp hnodup).2.2 place hmem place List.mem_cons_self rfl

end Stacklet.Assembly
