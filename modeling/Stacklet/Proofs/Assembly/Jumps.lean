import Stacklet.Proofs.Assembly.Drafts
import Stacklet.Proofs.Assembly.Emission
import Stacklet.Proofs.Assembly.OfWords

/-! # Jumps and their labels

Both front ends write in blocks: a jump, what it may leave out, and the label that it goes to. So
the jumps of a body and its labels belong together one to one, and every jump goes ahead. This is
put together block by block, whatever the labels are; that they are all different makes it a
statement about places in the text.
-/

namespace Stacklet.Assembly

/-! ## Targets -/

/-- The label that a line jumps to. -/
def Line.target? : Line → Option Label
  | code (.jump _ target) => some target
  | _ => none

/-- The labels that lines jump to, in order. -/
def targets (lines : List Line) : List Label :=
  lines.filterMap Line.target?

@[simp] theorem targets_nil : targets [] = [] := rfl

@[simp] theorem targets_append (left right : List Line) :
    targets (left ++ right) = targets left ++ targets right :=
  List.filterMap_append

@[simp] theorem targets_label (place : Label) (rest : List Line) :
    targets (.label place :: rest) = targets rest := rfl

@[simp] theorem targets_jumpIfZero (target : Label) : targets (jumpIfZero target) = [target] := rfl

@[simp] theorem targets_otherwise (exit landing : Label) :
    targets (otherwise exit landing) = [exit] := rfl

theorem Line.target?_eq_some_iff {line : Line} {target : Label} :
    line.target? = some target ↔ ∃ condition, line = .code (.jump condition target) := by
  constructor
  · intro h
    cases line with
    | code instruction =>
        cases instruction with
        | jump condition place =>
            cases h
            exact ⟨condition, rfl⟩
        | _ => cases h
    | _ => cases h
  · rintro ⟨condition, rfl⟩
    rfl

theorem Line.definition?_eq_some_iff {line : Line} {place : Label} :
    line.definition? = some place ↔ line = .label place := by
  cases line <;> simp [Line.definition?]

theorem exists_label_of_mem_definitions {lines : List Line} {place : Label}
    (h : place ∈ definitions lines) : ∃ index : Nat, lines[index]? = some (.label place) := by
  obtain ⟨line, hline, hplace⟩ := List.mem_filterMap.mp h
  rw [Line.definition?_eq_some_iff.mp hplace] at hline
  exact List.mem_iff_getElem?.mp hline

theorem exists_jump_of_mem_targets {lines : List Line} {target : Label}
    (h : target ∈ targets lines) :
    ∃ (index : Nat) (condition : Condition),
      lines[index]? = some (.code (.jump condition target)) := by
  obtain ⟨line, hline, htarget⟩ := List.mem_filterMap.mp h
  obtain ⟨condition, rfl⟩ := Line.target?_eq_some_iff.mp htarget
  obtain ⟨index, hindex⟩ := List.mem_iff_getElem?.mp hline
  exact ⟨index, condition, hindex⟩

/-! ## Blocks -/

/-- Every jump goes to a label that is defined behind it. -/
def JumpsAhead : List Line → Prop
  | [] => True
  | line :: rest => (∀ target ∈ line.target?, target ∈ definitions rest) ∧ JumpsAhead rest

theorem JumpsAhead.append {left right : List Line} (hleft : JumpsAhead left)
    (hright : JumpsAhead right) : JumpsAhead (left ++ right) := by
  induction left with
  | nil => exact hright
  | cons line rest ih =>
      refine ⟨?_, ih hleft.2⟩
      intro target htarget
      have hdefined := List.mem_append_left (definitions right) (hleft.1 target htarget)
      rwa [← definitions_append] at hdefined

theorem jumpsAhead_of_targets {code : List Line} (h : targets code = []) : JumpsAhead code := by
  induction code with
  | nil => trivial
  | cons line rest ih =>
      have hnone := List.filterMap_eq_nil_iff.mp h
      refine ⟨?_, ih (List.filterMap_eq_nil_iff.mpr fun other hother =>
        hnone other (List.mem_cons_of_mem line hother))⟩
      intro target htarget
      rw [hnone line List.mem_cons_self] at htarget
      cases htarget

/-- A jump goes further on, by the place of its label. -/
theorem JumpsAhead.exists_label {lines : List Line} (h : JumpsAhead lines) {start : Nat}
    {condition : Condition} {target : Label}
    (hstart : lines[start]? = some (.code (.jump condition target))) :
    ∃ stop, start < stop ∧ lines[stop]? = some (.label target) := by
  induction lines generalizing start with
  | nil => cases hstart
  | cons line rest ih =>
      cases start with
      | zero =>
          obtain rfl : line = .code (.jump condition target) := by simpa using hstart
          obtain ⟨index, hindex⟩ := exists_label_of_mem_definitions (h.1 target rfl)
          exact ⟨index + 1, Nat.succ_pos index, hindex⟩
      | succ start =>
          obtain ⟨stop, hlt, hstop⟩ := ih h.2 hstart
          exact ⟨stop + 1, Nat.succ_lt_succ hlt, hstop⟩

/-- Code whose jumps and labels belong together one to one, every jump before its label. -/
structure Paired (code : List Line) : Prop where
  perm : (targets code).Perm (definitions code)
  ahead : JumpsAhead code

theorem paired_of_straight {code : List Line} (hdefinitions : definitions code = [])
    (htargets : targets code = []) : Paired code where
  perm := by rw [hdefinitions, htargets]
  ahead := jumpsAhead_of_targets htargets

theorem Paired.append {left right : List Line} (hleft : Paired left) (hright : Paired right) :
    Paired (left ++ right) where
  perm := by
    rw [targets_append, definitions_append]
    exact hleft.perm.append hright.perm
  ahead := hleft.ahead.append hright.ahead

/-- A block with one arm: what is between a jump and its label may be left out. -/
theorem Paired.ifThen {code : List Line} (h : Paired code) (join : Label) :
    Paired (jumpIfZero join ++ (code ++ [.label join])) where
  perm := by
    simp only [targets_append, definitions_append, targets_jumpIfZero, definitions_jumpIfZero,
      targets_label, definitions_label, targets_nil, definitions_nil, List.append_nil,
      List.nil_append]
    exact (h.perm.cons join).trans (List.perm_append_singleton join _).symm
  ahead := by
    have hcode : JumpsAhead (code ++ [.label join]) :=
      h.ahead.append (jumpsAhead_of_targets (targets_label join []))
    refine ⟨nofun, nofun, nofun, ?_, hcode⟩
    rintro _ ⟨⟩
    simp

/-- A block with two arms: the first jump goes before the other arm, the second behind it. -/
theorem Paired.ifElse {code other : List Line} (h : Paired code) (hother : Paired other)
    (join alternate : Label) :
    Paired (jumpIfZero alternate ++ (code ++ (otherwise join alternate ++
      (other ++ [.label join])))) where
  perm := by
    simp only [targets_append, definitions_append, targets_jumpIfZero, definitions_jumpIfZero,
      targets_otherwise, definitions_otherwise, targets_label, definitions_label, targets_nil,
      definitions_nil, List.append_nil, List.nil_append, List.singleton_append]
    -- In the text both labels come one arm later than their jumps.
    have hsecond : (join :: targets other).Perm (definitions other ++ [join]) :=
      (hother.perm.cons join).trans (List.perm_append_singleton join _).symm
    exact ((h.perm.append hsecond).cons alternate).trans List.perm_middle.symm
  ahead := by
    have hlabel : JumpsAhead (other ++ [.label join]) :=
      hother.ahead.append (jumpsAhead_of_targets (targets_label join []))
    have hotherwise : JumpsAhead (otherwise join alternate ++ (other ++ [.label join])) := by
      refine ⟨nofun, ?_, nofun, hlabel⟩
      rintro _ ⟨⟩
      simp
    refine ⟨nofun, nofun, nofun, ?_, h.ahead.append hotherwise⟩
    rintro _ ⟨⟩
    simp

/-! ## Bodies -/

theorem targets_push (value : Cell) : targets (push value) = [] := by
  rw [push]
  split <;> rfl

theorem paired_operator {op : BinaryOp} {template : List Line}
    (h : operator? op = some template) : Paired template := by
  refine paired_of_straight (applies_of_operator? h).definitions_eq ?_
  cases op <;> cases h <;> rfl

theorem paired_dump : Paired dump :=
  paired_of_straight rfl rfl

theorem paired_nil : Paired [] :=
  paired_of_straight rfl rfl

theorem paired_code_expr (expr : Expr) : Paired expr.code := by
  fun_induction Expr.code expr with
  | case1 value span =>
      cases value.cell? with
      | none => exact paired_nil
      | some cell => exact paired_of_straight (definitions_push cell) (targets_push cell)
  | case2 left op right template htemplate ihLeft ihRight =>
      exact ihLeft.append (ihRight.append (paired_operator htemplate))
  | case3 => exact paired_nil
  | case4 => exact paired_nil

mutual

theorem paired_code (number : Nat) : (stmt : Stmt) → Paired (stmt.code number)
  | .print expr => (paired_code_expr expr).append paired_dump
  | .block body => paired_codeOf number body
  | .ifThen condition thenBranch =>
      (paired_code_expr condition).append
        ((paired_code (number + 1) thenBranch).ifThen (.branch number))
  | .ifElse condition thenBranch elseBranch =>
      (paired_code_expr condition).append
        ((paired_code (number + 2) thenBranch).ifElse (paired_code _ elseBranch) (.branch number)
          (.branch (number + 1)))
  | .expression _ | .varDef _ _ | .whileLoop _ _ | .funDef _ | .ret _ _ | .classDef _ _ =>
      paired_nil

theorem paired_codeOf (number : Nat) : (statements : List Stmt) →
    Paired (Stmt.codeOf number statements)
  | [] => paired_nil
  | stmt :: rest => (paired_code number stmt).append (paired_codeOf _ rest)

end

theorem paired_basic (word : Basic) (index : Nat) :
    Paired (ofInstruction index word.instruction) := by
  cases word with
  | push value => exact paired_of_straight (definitions_push value) (targets_push value)
  | _ => exact paired_of_straight rfl rfl

/-- The labels of a block carry the indices that its openers were linked with. -/
theorem paired_nesting (nesting : Nesting) (index : Nat) :
    Paired (ofInstructions index (nesting.linked index)) := by
  induction nesting generalizing index with
  | done => exact paired_nil
  | basic word more ih =>
      rw [Nesting.linked, ofInstructions]
      exact (paired_basic word index).append (ih (index + 1))
  | ifEnd thenPart more ihThen ih =>
      have hblock := ((ihThen (index + 1)).ifThen (.addr (index + 1 + thenPart.size + 1))).append
        (ih (index + 1 + thenPart.size + 1))
      rw [ofInstructions_ifEnd]
      simpa only [List.append_assoc, List.singleton_append] using hblock
  | ifElse thenPart elsePart more ihThen ihElse ih =>
      have hblock := ((ihThen (index + 1)).ifElse (ihElse (index + 1 + thenPart.size + 1))
        (.addr (index + 1 + thenPart.size + 1 + elsePart.size + 1))
        (.addr (index + 1 + thenPart.size + 1))).append
        (ih (index + 1 + thenPart.size + 1 + elsePart.size + 1))
      rw [ofInstructions_ifElse]
      simpa only [List.append_assoc, List.singleton_append] using hblock

/-! ## Places -/

/-- Jumps and labels correspond by their places: a jump goes to a label that is defined in one place
only, which is further on, and a label is gone to from one place only. -/
structure Matched (lines : List Line) : Prop where
  label_of_jump {start : Nat} {condition : Condition} {target : Label}
    (h : lines[start]? = some (.code (.jump condition target))) :
    ∃ stop, start < stop ∧ ∀ index : Nat, lines[index]? = some (.label target) ↔ index = stop
  jump_of_label {stop : Nat} {place : Label} (h : lines[stop]? = some (.label place)) :
    ∃ start, ∀ index : Nat,
      (∃ condition, lines[index]? = some (.code (.jump condition place))) ↔ index = start

/-- Where nothing is selected twice, a thing is selected in one place. -/
theorem index_eq_of_nodup_filterMap {α β : Type} {f : α → Option β} {list : List α}
    (h : (list.filterMap f).Nodup) {i j : Nat} {x y : α} {b : β} (hi : list[i]? = some x)
    (hj : list[j]? = some y) (hx : f x = some b) (hy : f y = some b) : i = j := by
  have hpairwise := List.pairwise_iff_getElem.mp (List.pairwise_filterMap.mp h)
  obtain ⟨hilt, rfl⟩ := List.getElem?_eq_some_iff.mp hi
  obtain ⟨hjlt, rfl⟩ := List.getElem?_eq_some_iff.mp hj
  rcases Nat.lt_trichotomy i j with hlt | heq | hgt
  · exact absurd rfl (hpairwise i j hilt hjlt hlt b hx b hy)
  · exact heq
  · exact absurd rfl (hpairwise j i hjlt hilt hgt b hy b hx)

theorem Paired.matched {code : List Line} (h : Paired code) (hnodup : (definitions code).Nodup) :
    Matched code where
  label_of_jump := by
    intro start condition target hstart
    obtain ⟨stop, hlt, hstop⟩ := h.ahead.exists_label hstart
    refine ⟨stop, hlt, fun index => ?_⟩
    constructor
    · intro hindex
      exact index_eq_of_nodup_filterMap hnodup hindex hstop rfl rfl
    · rintro rfl
      exact hstop
  jump_of_label := by
    intro stop place hstop
    have hplace : place ∈ definitions code :=
      List.mem_filterMap.mpr ⟨_, List.mem_of_getElem? hstop, rfl⟩
    obtain ⟨start, condition, hstart⟩ := exists_jump_of_mem_targets (h.perm.mem_iff.mpr hplace)
    refine ⟨start, fun index => ?_⟩
    constructor
    · rintro ⟨other, hindex⟩
      exact index_eq_of_nodup_filterMap (h.perm.nodup_iff.mpr hnodup) hindex hstart rfl rfl
    · rintro rfl
      exact ⟨condition, hstart⟩

/-! ## Names of labels -/

theorem executes_codeOf {statements : List Stmt} (h : Stmt.AllSupported statements)
    (number : Nat) :
    ∃ printed, Executes (Stmt.codeOf number statements) number (labelsOf statements) printed := by
  have hsteps : ofStmts number statements [] = write (Stmt.codeOf number statements) [] :=
    ofStmts_eq_write h
  have hfaultless : Faultless (ofStmts number statements []) := by
    rw [hsteps]
    exact faultless_write.mpr (List.forall_mem_nil _)
  obtain ⟨code, printed, hcode, -, hexecutes⟩ := exists_executes_list hfaultless
  have heq : code = Stmt.codeOf number statements := by
    rw [← lines_ofSteps code, ← hcode, hsteps, lines_ofSteps]
  exact ⟨printed, heq ▸ hexecutes⟩

theorem armCount_within : ∀ {expr : Expr}, expr.Supported → armCount expr.within = 0
  | .literal _ _, _ => rfl
  | .binary left _ right, h => by
      simp [Expr.within, armCount_within h.2.1, armCount_within h.2.2]
  | .unary _ _, h | .grouping _, h | .var _, h | .assign _ _, h | .logical _ _ _, h
  | .call _ _ _, h | .lambda _ _, h => h.elim

mutual

/-- A conditional has a label for each of its arms. -/
theorem labels_eq_armCount : ∀ {stmt : Stmt}, stmt.Supported →
    labels stmt = armCount (.stmt stmt :: stmt.within)
  | .print expr, h => by
      simp [labels, Stmt.within, armCount_within h]
  | .block body, h => by
      simp [labels, Stmt.within, labelsOf_eq_armCount h]
  | .ifThen condition thenBranch, h => by
      simp [labels, Stmt.within, armCount_within h.1, labels_eq_armCount h.2]
  | .ifElse condition thenBranch elseBranch, h => by
      rw [labels, labels_eq_armCount h.2.1, labels_eq_armCount h.2.2, Stmt.within,
        armCount_ifElse, armCount_expr, armCount_append, armCount_within h.1, Nat.zero_add,
        ← List.cons_append, armCount_append, Nat.add_assoc]
  | .expression _, h | .varDef _ _, h | .whileLoop _ _, h | .funDef _, h | .ret _ _, h
  | .classDef _ _, h => h.elim

theorem labelsOf_eq_armCount : ∀ {statements : List Stmt}, Stmt.AllSupported statements →
    labelsOf statements = armCount (Stmt.nodesOf statements)
  | [], _ => rfl
  | stmt :: rest, h => by
      rw [labelsOf, labels_eq_armCount h.1, labelsOf_eq_armCount h.2, ← armCount_append,
        List.cons_append, Stmt.nodesOf]

end

/-- The labels of a supported program are numbered from zero on, as many as there are arms. -/
theorem mem_definitions_codeOf {statements : List Stmt} (h : Stmt.AllSupported statements)
    {place : Label} :
    place ∈ definitions (Stmt.codeOf 0 statements) ↔
      ∃ number < armCount (Stmt.nodesOf statements), place = .branch number := by
  obtain ⟨printed, hexecutes⟩ := executes_codeOf h 0
  rw [hexecutes.definitions_perm.mem_iff, List.mem_map, labelsOf_eq_armCount h]
  constructor
  · rintro ⟨number, hnumber, rfl⟩
    exact ⟨number, by simpa using List.mem_range'_1.mp hnumber, rfl⟩
  · rintro ⟨number, hnumber, rfl⟩
    exact ⟨number, List.mem_range'_1.mpr (by omega), rfl⟩

theorem mem_definitions_ofInstruction {index : Nat} {instruction : Instruction Nat}
    {place : Label} :
    place ∈ definitions (ofInstruction index instruction) ↔
      instruction.IsDelimiter ∧ place = .addr (index + 1) := by
  cases instruction with
  | push value => simp [ofInstruction, Instruction.IsDelimiter]
  | equal => simp [ofInstruction, Instruction.IsDelimiter, equal]
  | _ => simp [ofInstruction, Instruction.IsDelimiter]

/-- The labels of instructions are those behind the words that close an arm. -/
theorem mem_definitions_ofInstructions {index : Nat} {instructions : List (Instruction Nat)}
    {place : Label} :
    place ∈ definitions (ofInstructions index instructions) ↔
      ∃ offset instruction, instructions[offset]? = some instruction ∧
        instruction.IsDelimiter ∧ place = .addr (index + offset + 1) := by
  induction instructions generalizing index with
  | nil => simp [ofInstructions]
  | cons first rest ih =>
      rw [ofInstructions, definitions_append, List.mem_append, mem_definitions_ofInstruction, ih]
      constructor
      · rintro (⟨hfirst, rfl⟩ | ⟨offset, instruction, hoffset, hdelimiter, rfl⟩)
        · exact ⟨0, first, rfl, hfirst, rfl⟩
        · exact ⟨offset + 1, instruction, hoffset, hdelimiter, by simp; omega⟩
      · rintro ⟨_ | offset, instruction, hoffset, hdelimiter, rfl⟩
        · obtain rfl : first = instruction := by simpa using hoffset
          exact .inl ⟨hdelimiter, rfl⟩
        · exact .inr ⟨offset, instruction, hoffset, hdelimiter, by simp; omega⟩

/-! ## Compilations -/

/-- What compiles by way of a tree is read as one, and its lines are all that is emitted of it. -/
theorem exists_parse_of_compileTree {text : List Char} {lines : List Line}
    (h : (compileTree text).result = .ok lines) :
    ∃ tokens statements, scan text = .ok tokens ∧ parse tokens = .ok statements ∧
      ofTree statements = ⟨lines, none⟩ := by
  unfold compileTree at h
  split at h
  · cases h
  next tokens hscan =>
    dsimp only at h
    split at h
    · cases h
    next statements hparse =>
      split at h
      · cases h
      next emitted hemitted =>
        cases h
        exact ⟨tokens, statements, hscan, hparse, hemitted⟩

/-- The labels of a body are those that a front end has for a text: one for each arm of its
conditionals, numbered from zero on, or one behind each word that closes an arm. -/
def Numbered (text : List Char) (body : List Line) : FrontEnd → Prop
  | .tree => ∃ tokens statements, scan text = .ok tokens ∧ parse tokens = .ok statements ∧
      ∀ place, place ∈ definitions body ↔
        ∃ number < armCount (Stmt.nodesOf statements), place = .branch number
  | .flat => ∃ instructions, readWords text = .ok instructions ∧
      ∀ place, place ∈ definitions body ↔
        ∃ index, (∃ located, instructions[index]? = some located ∧ located.value.IsDelimiter) ∧
          place = .addr (index + 1)

/-- Lines that are read back from their text, in which no label is defined twice, with a body in
which jumps and labels correspond. -/
def Labelled (text : List Char) (frontEnd : FrontEnd) (lines : List Line) : Prop :=
  read? (render lines) = some lines ∧ ((definitions lines).map Label.name).Nodup ∧
    ∃ body, lines = prologue ++ (body ++ epilogue) ∧ Matched body ∧ Numbered text body frontEnd

theorem Label.name_injective : Function.Injective Label.name := by
  intro left right h
  have hread := Label.read?_name left
  rw [h, Label.read?_name] at hread
  exact (Option.some.inj hread).symm

theorem nodup_definitions_of_framed {body : List Line}
    (h : (definitions (prologue ++ (body ++ epilogue))).Nodup) : (definitions body).Nodup := by
  simp only [definitions_append] at h
  exact h.of_append_right.of_append_left

theorem Paired.labelled {text : List Char} {frontEnd : FrontEnd} {body : List Line}
    (h : Paired body) (hlegible : ∀ line ∈ body, line.Legible)
    (hnodup : (definitions (prologue ++ (body ++ epilogue))).Nodup)
    (hnumbered : Numbered text body frontEnd) :
    Labelled text frontEnd (prologue ++ (body ++ epilogue)) := by
  exact ⟨read?_render (legible_framed hlegible), hnodup.map Label.name_injective, body, rfl,
    h.matched (nodup_definitions_of_framed hnodup), hnumbered⟩

theorem labelled_of_compileTree {text : List Char} {lines : List Line}
    (h : (compileTree text).result = .ok lines) : Labelled text .tree lines := by
  obtain ⟨tokens, statements, hscan, hparse, hemitted⟩ := exists_parse_of_compileTree h
  have hsupported : Stmt.AllSupported statements :=
    allSupported_of_fault_eq_none (by rw [hemitted])
  rw [ofTree_of_allSupported hsupported] at hemitted
  cases hemitted
  obtain ⟨printed, hexecutes⟩ := executes_codeOf hsupported 0
  exact (paired_codeOf 0 statements).labelled hexecutes.legible hexecutes.nodup_definitions
    ⟨tokens, statements, hscan, hparse, fun _ => mem_definitions_codeOf hsupported⟩

theorem paired_of_link {τ : Type} {instructions : List (Located (Instruction τ))}
    {linked : List (Located (Instruction Nat))} (h : link instructions = .ok linked) :
    Paired (ofInstructions 0 (linked.map (·.value))) := by
  obtain ⟨nesting, hwords⟩ := exists_link_eq_ok_iff.mp ⟨linked, h⟩
  rw [map_value_of_link_eq_ok h hwords.symm]
  exact paired_nesting nesting 0

theorem exists_isDelimiter_iff {τ : Type} {instructions : List (Located (Instruction τ))}
    {index : Nat} :
    (∃ located, instructions[index]? = some located ∧ located.value.IsDelimiter) ↔
      ∃ word, (Blocks.wordsOf instructions)[index]? = some word ∧ word.IsDelimiter := by
  rw [Blocks.wordsOf, List.getElem?_map]
  cases instructions[index]? with
  | none => simp
  | some located => simp [Instruction.isDelimiter_word]

/-- The labels of linked instructions are those behind the words that close an arm, which linking
keeps in their places. -/
theorem mem_definitions_of_link {τ : Type} {instructions : List (Located (Instruction τ))}
    {linked : List (Located (Instruction Nat))} (h : link instructions = .ok linked)
    {place : Label} :
    place ∈ definitions (ofInstructions 0 (linked.map (·.value))) ↔
      ∃ index, (∃ located, instructions[index]? = some located ∧ located.value.IsDelimiter) ∧
        place = .addr (index + 1) := by
  simp only [mem_definitions_ofInstructions, exists_isDelimiter_iff,
    ← wordsOf_of_link_eq_ok h]
  simp only [← exists_isDelimiter_iff, List.getElem?_map, Option.map_eq_some_iff, Nat.zero_add]
  constructor
  · rintro ⟨index, _, ⟨located, hlocated, rfl⟩, hdelimiter, rfl⟩
    exact ⟨index, ⟨located, hlocated, hdelimiter⟩, rfl⟩
  · rintro ⟨index, ⟨located, hlocated, hdelimiter⟩, rfl⟩
    exact ⟨index, _, ⟨located, hlocated, rfl⟩, hdelimiter, rfl⟩

theorem labelled_of_compileFlat {text : List Char} {lines : List Line}
    (h : (compileFlat text).result = .ok lines) : Labelled text .flat lines := by
  obtain ⟨instructions, linked, hread, hlink, rfl⟩ := exists_link_of_compileFlat h
  have hnodup := nodup_definitions_ofWords linked
  rw [ofWords, List.append_assoc] at hnodup ⊢
  exact (paired_of_link hlink).labelled (legible_ofInstructions 0 _) hnodup
    ⟨instructions, hread, fun _ => mem_definitions_of_link hlink⟩

/-- What is linked in place is written to its end, where there is room. Where there is none, a missing
target is not what ends the writing. -/
theorem emitDraft_of_linkInPlace {draft program : Blocks.Draft}
    (h : Blocks.linkInPlace draft = .ok program) :
    (∃ linked, link draft = .ok linked ∧
      emitDraft program ⟨.empty, none⟩ =
        .ok () ⟨(render (ofWords linked)).toByteArray, none⟩) ∧
    ∀ output index span last, emitDraft program output ≠ .error (.unresolved index span) last := by
  obtain ⟨linked, hlink, rfl⟩ := exists_filled_of_linkInPlace h
  refine ⟨⟨linked, hlink, emitDraft_eq_ok_iff.mpr ⟨linked, rfl, rfl⟩⟩, ?_⟩
  intro output index span last
  rw [emitDraft_filled]
  exact ofEmit_ne_unresolved _ _ _ _ _

theorem compileFlat_of_linkInPlace {text : List Char}
    {instructions : List (Located (Instruction Unit))} {program : Blocks.Draft}
    (hread : readWords text = .ok instructions)
    (hlink : Blocks.linkInPlace (Blocks.unlinked instructions) = .ok program) :
    ∃ lines, (compileFlat text).result = .ok lines ∧
      emitDraft program ⟨.empty, none⟩ = .ok () ⟨(render lines).toByteArray, none⟩ := by
  obtain ⟨linked, hlinked, hwritten⟩ := (emitDraft_of_linkInPlace hlink).1
  rw [← link_outline, Blocks.outline_unlinked] at hlinked
  refine ⟨ofWords linked, ?_, hwritten⟩
  simp only [compileFlat, hread, hlinked]

/-- Every compilation is label-correct. No label of its text is defined twice, the jumps of the body
go ahead to its labels one to one, and the labels are those of the conditionals. Words that link
always compile, since every jump of theirs has a label, whatever targets they had before. Linked in
place, they are a draft of which nothing is left unresolved, and what is written of it is the text
of the compilation. -/
theorem labelled_of_compile :
    (∀ {text frontEnd lines}, (compile text frontEnd).result = .ok lines →
      Labelled text frontEnd lines) ∧
    (∀ {τ : Type} {instructions : List (Located (Instruction τ))} {linked},
      link instructions = .ok linked → Matched (ofInstructions 0 (linked.map (·.value)))) ∧
    (∀ {text instructions linked}, readWords text = .ok instructions →
      link instructions = .ok linked → (compile text .flat).result = .ok (ofWords linked)) ∧
    (∀ {draft program : Blocks.Draft}, Blocks.linkInPlace draft = .ok program →
      (∃ linked, link draft = .ok linked ∧
        emitDraft program ⟨.empty, none⟩ =
          .ok () ⟨(render (ofWords linked)).toByteArray, none⟩) ∧
      ∀ output index span last,
        emitDraft program output ≠ .error (.unresolved index span) last) ∧
    ∀ {text instructions program}, readWords text = .ok instructions →
      Blocks.linkInPlace (Blocks.unlinked instructions) = .ok program →
      ∃ lines, (compile text .flat).result = .ok lines ∧
        emitDraft program ⟨.empty, none⟩ = .ok () ⟨(render lines).toByteArray, none⟩ := by
  refine ⟨?_, ?_, ?_, ?_, ?_⟩
  · intro text frontEnd lines h
    cases frontEnd with
    | tree => exact labelled_of_compileTree h
    | flat => exact labelled_of_compileFlat h
  · intro τ instructions linked h
    exact (paired_of_link h).matched (nodup_definitions_ofInstructions 0 _)
  · intro text instructions linked hread hlink
    simp only [compile, compileFlat, hread, hlink]
  · intro draft program h
    exact emitDraft_of_linkInPlace h
  · intro text instructions program hread hlink
    exact compileFlat_of_linkInPlace hread hlink

theorem exists_ok_of_isOk {ε α : Type} {result : Except ε α} (h : result.isOk = true) :
    ∃ value, result = .ok value := by
  cases result with
  | ok value => exact ⟨value, rfl⟩
  | error error => cases h

theorem labelled_of_compile_nested :
    let flat := "1 if 2 if 3 . else 4 . end end".toList
    let tree := "if (1) { if (2) print 3; else print 4; }".toList
    (∃ instructions linked program, readWords flat = .ok instructions ∧
      link instructions = .ok linked ∧
      Blocks.linkInPlace (Blocks.unlinked instructions) = .ok program ∧
      (compile flat .flat).result = .ok (ofWords linked) ∧ Labelled flat .flat (ofWords linked) ∧
      Matched (ofInstructions 0 (linked.map (·.value))) ∧
      (∃ lines, (compile flat .flat).result = .ok lines ∧
        emitDraft program ⟨.empty, none⟩ = .ok () ⟨(render lines).toByteArray, none⟩) ∧
      ∀ output index span last,
        emitDraft program output ≠ .error (.unresolved index span) last) ∧
    ∃ lines, (compile tree .tree).result = .ok lines ∧ Labelled tree .tree lines := by
  intro flat tree
  have hflat : (compile flat .flat).result.isOk = true := by decide +kernel
  have htree : (compile tree .tree).result.isOk = true := by decide +kernel
  obtain ⟨labelled, matched, compiles, resolved, written⟩ := labelled_of_compile
  obtain ⟨lines, hlines⟩ := exists_ok_of_isOk htree
  obtain ⟨flatLines, hflatLines⟩ := exists_ok_of_isOk hflat
  obtain ⟨instructions, linked, hread, hlink, rfl⟩ := exists_link_of_compileFlat hflatLines
  have hprogram : Blocks.linkInPlace (Blocks.unlinked instructions) =
      .ok (Blocks.filled linked) := by
    rw [linkInPlace_unlinked, hlink]
    rfl
  exact ⟨⟨instructions, linked, _, hread, hlink, hprogram, compiles hread hlink,
    labelled hflatLines, matched hlink, written hread hprogram, (resolved hprogram).2⟩, lines,
    hlines, labelled hlines⟩

end Stacklet.Assembly
