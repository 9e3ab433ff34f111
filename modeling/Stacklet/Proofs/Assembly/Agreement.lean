import Mathlib.Data.Set.List
import Mathlib.Logic.Equiv.Basic
import Stacklet.Proofs.Assembly.Jumps
import Stacklet.Proofs.Word.Spelling

/-! # Trees and words agree

Statements that only print, branch and compute sums, differences and equality can be written as
words, operands before operators. Both front ends make the same code of them, template by template,
except that they name labels by different schemes. A renaming is found at the end: code corresponds
to other code if any renaming that is right for the labels it defines is right for all of it.
-/

namespace Stacklet

/-! ## Linear form -/

/-- The word of an operator that both languages have. -/
def BinaryOp.word? : BinaryOp → Option (List Char)
  | .add => some ['+']
  | .sub => some ['-']
  | .equal => some ['=', '=']
  | _ => none

/-- The words of an expression: operands, then the operator. An integer is written in decimal. -/
def Expr.linear? : Expr → Option (List (List Char))
  | .literal value _ => do
    let number ← value.integer?
    if -0x8000000000000000 ≤ number ∧ number < 0x8000000000000000 then
      some [(toString number).toList]
    else none
  | .binary left op right => do
    let word ← op.value.word?
    return (← left.linear?) ++ ((← right.linear?) ++ [word])
  | _ => none

mutual

/-- The words of a statement. The arms of a conditional stand behind its condition. -/
def Stmt.linear? : Stmt → Option (List (List Char))
  | .print expr => do return (← expr.linear?) ++ [['.']]
  | .block body => Stmt.linearOf? body
  | .ifThen condition thenBranch => do
    return (← condition.linear?) ++
      (['i', 'f'] :: ((← thenBranch.linear?) ++ [['e', 'n', 'd']]))
  | .ifElse condition thenBranch elseBranch => do
    return (← condition.linear?) ++
      (['i', 'f'] :: ((← thenBranch.linear?) ++
        (['e', 'l', 's', 'e'] :: ((← elseBranch.linear?) ++ [['e', 'n', 'd']]))))
  | _ => none

/-- The words of statements, one statement after the other. -/
def Stmt.linearOf? : List Stmt → Option (List (List Char))
  | [] => some []
  | stmt :: rest => do return (← stmt.linear?) ++ (← Stmt.linearOf? rest)

end

namespace Nesting

theorem linked_append (front behind : Nesting) (index : Nat) :
    (front.append behind).linked index =
      front.linked index ++ behind.linked (index + front.size) := by
  induction front generalizing index with
  | done => rfl
  | basic word rest ih =>
      have hindex : index + 1 + rest.size = index + (rest.size + 1) := by omega
      rw [append, linked, linked, ih, size_basic, List.cons_append, hindex]
  | ifEnd thenPart rest ihThen ih =>
      have hindex : index + 1 + thenPart.size + 1 + rest.size =
          index + (thenPart.size + rest.size + 2) := by
        omega
      simp only [append, linked, ih, size_ifEnd, List.cons_append, List.append_assoc, hindex]
  | ifElse thenPart elsePart rest ihThen ihElse ih =>
      have hindex : index + 1 + thenPart.size + 1 + elsePart.size + 1 + rest.size =
          index + (thenPart.size + elsePart.size + rest.size + 3) := by
        omega
      simp only [append, linked, ih, size_ifElse, List.cons_append, List.append_assoc, hindex]

end Nesting

namespace Assembly

/-! ## Renaming -/

/-- Renames the labels of a line. -/
def Line.relabel (rename : Label → Label) : Line → Line
  | entry start => entry (rename start)
  | label place => label (rename place)
  | code (.jump condition target) => code (.jump condition (rename target))
  | code (.call target) => code (.call (rename target))
  | line => line

theorem Line.relabel_id (line : Line) : line.relabel id = line := by
  cases line with
  | code instruction => cases instruction <;> rfl
  | _ => rfl

@[simp] theorem map_relabel_push (rename : Label → Label) (value : Cell) :
    (push value).map (Line.relabel rename) = push value := by
  simp only [push]
  split <;> rfl

@[simp] theorem map_relabel_jumpIfZero (rename : Label → Label) (target : Label) :
    (jumpIfZero target).map (Line.relabel rename) = jumpIfZero (rename target) := rfl

@[simp] theorem map_relabel_otherwise (rename : Label → Label) (exit landing : Label) :
    (otherwise exit landing).map (Line.relabel rename) =
      otherwise (rename exit) (rename landing) := rfl

/-- Code that is other code under any renaming that makes its labels those of the other. The routine
for printing keeps its name. -/
structure Corresponds (code other : List Line) : Prop where
  length_eq : (definitions code).length = (definitions other).length
  map_eq {rename : Label → Label} (hdump : rename .dump = .dump)
    (h : (definitions code).map rename = definitions other) :
    code.map (Line.relabel rename) = other

theorem Corresponds.append {front behind otherFront otherBehind : List Line}
    (hfront : Corresponds front otherFront) (hbehind : Corresponds behind otherBehind) :
    Corresponds (front ++ behind) (otherFront ++ otherBehind) where
  length_eq := by
    simp only [definitions_append, List.length_append, hfront.length_eq, hbehind.length_eq]
  map_eq := by
    intro rename hdump h
    simp only [definitions_append, List.map_append] at h
    obtain ⟨hfirst, hsecond⟩ := List.append_inj h (by rw [List.length_map, hfront.length_eq])
    rw [List.map_append, hfront.map_eq hdump hfirst, hbehind.map_eq hdump hsecond]

/-- A block with one arm. -/
theorem Corresponds.ifThen {code other : List Line} (h : Corresponds code other)
    (join otherJoin : Label) :
    Corresponds (jumpIfZero join ++ (code ++ [.label join]))
      (jumpIfZero otherJoin ++ (other ++ [.label otherJoin])) where
  length_eq := by simp [h.length_eq]
  map_eq := by
    intro rename hdump hlabels
    simp only [definitions_append, definitions_jumpIfZero, definitions_label, definitions_nil,
      List.nil_append, List.map_append, List.map_cons, List.map_nil] at hlabels
    obtain ⟨hcode, hjoin⟩ := List.append_inj hlabels (by rw [List.length_map, h.length_eq])
    obtain ⟨rfl, -⟩ := List.cons.inj hjoin
    rw [List.map_append, List.map_append, h.map_eq hdump hcode]
    rfl

/-- A block with two arms. -/
theorem Corresponds.ifElse {thenCode thenOther elseCode elseOther : List Line}
    (hthen : Corresponds thenCode thenOther) (helse : Corresponds elseCode elseOther)
    (join alternate otherJoin otherAlternate : Label) :
    Corresponds
      (jumpIfZero alternate ++ (thenCode ++ (otherwise join alternate ++
        (elseCode ++ [.label join]))))
      (jumpIfZero otherAlternate ++ (thenOther ++ (otherwise otherJoin otherAlternate ++
        (elseOther ++ [.label otherJoin])))) where
  length_eq := by simp [hthen.length_eq, helse.length_eq]
  map_eq := by
    intro rename hdump hlabels
    simp only [definitions_append, definitions_jumpIfZero, definitions_otherwise,
      definitions_label, definitions_nil, List.nil_append, List.singleton_append,
      List.map_append, List.map_cons, List.map_nil] at hlabels
    obtain ⟨hthenLabels, hlanding⟩ :=
      List.append_inj hlabels (by rw [List.length_map, hthen.length_eq])
    obtain ⟨rfl, hother⟩ := List.cons.inj hlanding
    obtain ⟨helseLabels, hjoin⟩ :=
      List.append_inj hother (by rw [List.length_map, helse.length_eq])
    obtain ⟨rfl, -⟩ := List.cons.inj hjoin
    simp only [List.map_append, hthen.map_eq hdump hthenLabels, helse.map_eq hdump helseLabels]
    rfl

/-! ## Code of words -/

/-- Words that are read as blocks whose code corresponds to some code, wherever they stand. -/
def Linearizes (words : List (List Char)) (code : List Line) : Prop :=
  ∃ nesting : Nesting, List.Forall₂ Denotes words nesting.words ∧
    ∀ index, Corresponds code (ofInstructions index (nesting.linked index))

theorem linearizes_nil : Linearizes [] [] :=
  ⟨.done, .nil, fun _ => ⟨rfl, fun _ _ => rfl⟩⟩

theorem Linearizes.append {front behind : List (List Char)} {frontCode behindCode : List Line}
    (hfront : Linearizes front frontCode) (hbehind : Linearizes behind behindCode) :
    Linearizes (front ++ behind) (frontCode ++ behindCode) := by
  obtain ⟨frontNesting, hfrontWords, hfrontCode⟩ := hfront
  obtain ⟨behindNesting, hbehindWords, hbehindCode⟩ := hbehind
  refine ⟨frontNesting.append behindNesting, ?_, ?_⟩
  · rw [Nesting.words_append]
    exact List.rel_append hfrontWords hbehindWords
  · intro index
    rw [Nesting.linked_append, ofInstructions_append, Nesting.length_linked]
    exact (hfrontCode index).append (hbehindCode (index + frontNesting.size))

/-- A word without a label. -/
theorem linearizes_basic {word : List Char} {template : List Line} (basic : Basic)
    (hword : Denotes word basic.instruction)
    (htemplate : ∀ index, ofInstruction index basic.instruction = template)
    (hrelabel : ∀ rename : Label → Label, rename .dump = .dump →
      template.map (Line.relabel rename) = template) :
    Linearizes [word] template := by
  refine ⟨.basic basic .done, .cons hword .nil, ?_⟩
  intro index
  rw [Nesting.linked, Nesting.linked, ofInstructions, ofInstructions, List.append_nil, htemplate]
  exact ⟨rfl, fun hdump _ => hrelabel _ hdump⟩

theorem linearizes_number {number : Int} (hleast : -0x8000000000000000 ≤ number)
    (hgreatest : number < 0x8000000000000000) :
    Linearizes [(toString number).toList] (push (BitVec.ofInt 64 number)) := by
  refine linearizes_basic (.push _) (.number (spells_toString hleast hgreatest)) (fun _ => rfl) ?_
  intro rename _
  exact map_relabel_push rename _

theorem linearizes_dump : Linearizes [['.']] dump := by
  refine linearizes_basic .dump .dot (fun _ => rfl) ?_
  intro rename hdump
  simp only [dump, List.map_cons, List.map_nil, Line.relabel, hdump]

theorem linearizes_operator {op : BinaryOp} {word : List Char} (h : op.word? = some word) :
    ∃ template, operator? op = some template ∧ Linearizes [word] template := by
  cases op with
  | add =>
      cases h
      exact ⟨plus, rfl, linearizes_basic .plus .plus (fun _ => rfl) fun _ _ => rfl⟩
  | sub =>
      cases h
      exact ⟨minus, rfl, linearizes_basic .minus .minus (fun _ => rfl) fun _ _ => rfl⟩
  | equal =>
      cases h
      exact ⟨equal, rfl, linearizes_basic .equal .equal (fun _ => rfl) fun _ _ => rfl⟩
  | _ => cases h

theorem Linearizes.ifThen {words : List (List Char)} {code : List Line}
    (h : Linearizes words code) (join : Label) :
    Linearizes (['i', 'f'] :: (words ++ [['e', 'n', 'd']]))
      (jumpIfZero join ++ (code ++ [.label join])) := by
  obtain ⟨nesting, hwords, hcode⟩ := h
  refine ⟨.ifEnd nesting .done, .cons .cond (List.rel_append hwords (.cons .close .nil)), ?_⟩
  intro index
  rw [ofInstructions_ifEnd, Nesting.linked, ofInstructions]
  exact (hcode (index + 1)).ifThen join _

theorem Linearizes.ifElse {thenWords elseWords : List (List Char)}
    {thenCode elseCode : List Line} (hthen : Linearizes thenWords thenCode)
    (helse : Linearizes elseWords elseCode) (join alternate : Label) :
    Linearizes
      (['i', 'f'] :: (thenWords ++ (['e', 'l', 's', 'e'] :: (elseWords ++ [['e', 'n', 'd']]))))
      (jumpIfZero alternate ++ (thenCode ++ (otherwise join alternate ++
        (elseCode ++ [.label join])))) := by
  obtain ⟨thenNesting, hthenWords, hthenCode⟩ := hthen
  obtain ⟨elseNesting, helseWords, helseCode⟩ := helse
  refine ⟨.ifElse thenNesting elseNesting .done, .cons .cond (List.rel_append hthenWords
    (.cons .alt (List.rel_append helseWords (.cons .close .nil)))), ?_⟩
  intro index
  rw [ofInstructions_ifElse, Nesting.linked, ofInstructions]
  exact (hthenCode (index + 1)).ifElse (helseCode _) join alternate _ _

/-! ## Code of trees -/

theorem linearizes_expr {expr : Expr} {words : List (List Char)}
    (h : expr.linear? = some words) : expr.Supported ∧ Linearizes words expr.code := by
  fun_induction Expr.linear? expr generalizing words with
  | case1 value span =>
      obtain ⟨number, hnumber, hwords⟩ := Option.bind_eq_some_iff.mp h
      rw [Option.ite_none_right_eq_some] at hwords
      obtain ⟨⟨hleast, hgreatest⟩, ⟨⟩⟩ := hwords
      have hcell := Literal.cell?_of_integer? hnumber hleast hgreatest
      rw [Expr.Supported, Expr.code, hcell]
      exact ⟨rfl, linearizes_number hleast hgreatest⟩
  | case2 left op right ihLeft ihRight =>
      obtain ⟨word, hword, h⟩ := Option.bind_eq_some_iff.mp h
      obtain ⟨leftWords, hleft, h⟩ := Option.bind_eq_some_iff.mp h
      obtain ⟨rightWords, hright, ⟨⟩⟩ := Option.bind_eq_some_iff.mp h
      obtain ⟨template, htemplate, hoperator⟩ := linearizes_operator hword
      obtain ⟨hleftSupported, hleftCode⟩ := ihLeft hleft
      obtain ⟨hrightSupported, hrightCode⟩ := ihRight hright
      rw [Expr.Supported, Expr.code, htemplate]
      exact ⟨⟨rfl, hleftSupported, hrightSupported⟩,
        hleftCode.append (hrightCode.append hoperator)⟩
  | case3 => cases h

mutual

theorem linearizes_stmt : ∀ {stmt : Stmt} {words : List (List Char)}, stmt.linear? = some words →
    stmt.Supported ∧ ∀ number, Linearizes words (stmt.code number)
  | .print expr, words, h => by
      obtain ⟨exprWords, hexpr, ⟨⟩⟩ := Option.bind_eq_some_iff.mp h
      obtain ⟨hsupported, hcode⟩ := linearizes_expr hexpr
      exact ⟨hsupported, fun _ => hcode.append linearizes_dump⟩
  | .block body, words, h => linearizes_stmts h
  | .ifThen condition thenBranch, words, h => by
      obtain ⟨conditionWords, hcondition, h⟩ := Option.bind_eq_some_iff.mp h
      obtain ⟨thenWords, hthen, ⟨⟩⟩ := Option.bind_eq_some_iff.mp h
      obtain ⟨hconditionSupported, hconditionCode⟩ := linearizes_expr hcondition
      obtain ⟨hthenSupported, hthenCode⟩ := linearizes_stmt hthen
      exact ⟨⟨hconditionSupported, hthenSupported⟩, fun number =>
        hconditionCode.append ((hthenCode (number + 1)).ifThen (.branch number))⟩
  | .ifElse condition thenBranch elseBranch, words, h => by
      obtain ⟨conditionWords, hcondition, h⟩ := Option.bind_eq_some_iff.mp h
      obtain ⟨thenWords, hthen, h⟩ := Option.bind_eq_some_iff.mp h
      obtain ⟨elseWords, helse, ⟨⟩⟩ := Option.bind_eq_some_iff.mp h
      obtain ⟨hconditionSupported, hconditionCode⟩ := linearizes_expr hcondition
      obtain ⟨hthenSupported, hthenCode⟩ := linearizes_stmt hthen
      obtain ⟨helseSupported, helseCode⟩ := linearizes_stmt helse
      exact ⟨⟨hconditionSupported, hthenSupported, helseSupported⟩, fun number =>
        hconditionCode.append ((hthenCode (number + 2)).ifElse (helseCode _) (.branch number)
          (.branch (number + 1)))⟩
  | .expression _, _, h | .varDef _ _, _, h | .whileLoop _ _, _, h | .funDef _, _, h
  | .ret _ _, _, h | .classDef _ _, _, h => nomatch h

theorem linearizes_stmts : ∀ {statements : List Stmt} {words : List (List Char)},
    Stmt.linearOf? statements = some words →
      Stmt.AllSupported statements ∧ ∀ number, Linearizes words (Stmt.codeOf number statements)
  | [], words, h => by
      cases h
      exact ⟨trivial, fun _ => linearizes_nil⟩
  | stmt :: rest, words, h => by
      obtain ⟨stmtWords, hstmt, h⟩ := Option.bind_eq_some_iff.mp h
      obtain ⟨restWords, hrest, ⟨⟩⟩ := Option.bind_eq_some_iff.mp h
      obtain ⟨hstmtSupported, hstmtCode⟩ := linearizes_stmt hstmt
      obtain ⟨hrestSupported, hrestCode⟩ := linearizes_stmts hrest
      exact ⟨⟨hstmtSupported, hrestSupported⟩, fun number =>
        (hstmtCode number).append (hrestCode _)⟩

end

/-! ## Agreement -/

/-- Names the labels of a tree as those of words are named. -/
def Label.renamed (address : Nat → Nat) : Label → Label
  | branch number => addr (address number)
  | place => place

/-- Lists without repetition are renamings of each other if they are equally long. -/
theorem exists_perm_map_eq {left right : List Nat} (hleft : left.Nodup) (hright : right.Nodup)
    (hlength : left.length = right.length) :
    ∃ perm : Equiv.Perm Nat, left.map perm = right := by
  induction left generalizing right with
  | nil => exact ⟨.refl Nat, (List.eq_nil_of_length_eq_zero hlength.symm).symm⟩
  | cons first rest ih =>
      cases right with
      | nil => cases hlength
      | cons place places =>
          obtain ⟨hfirst, hrest⟩ := List.nodup_cons.mp hleft
          obtain ⟨hplace, hplaces⟩ := List.nodup_cons.mp hright
          obtain ⟨perm, rfl⟩ := ih hrest hplaces (Nat.succ.inj hlength)
          -- Only the place of the first is wrong, and neither it nor the right one is used.
          refine ⟨perm.trans (Equiv.swap (perm first) place), ?_⟩
          rw [List.map_cons, Equiv.trans_apply, Equiv.swap_apply_left]
          congr 1
          refine List.map_congr_left ?_
          intro number hnumber
          rw [Equiv.trans_apply, Equiv.swap_apply_of_ne_of_ne]
          · intro heq
            exact hfirst (perm.injective heq ▸ hnumber)
          · rintro rfl
            exact hplace (List.mem_map_of_mem hnumber)

/-- Words that are read as blocks compile to the code of the blocks. -/
theorem compile_intercalate {words : List (List Char)} {nesting : Nesting}
    (h : List.Forall₂ Denotes words nesting.words) :
    (compile ([' '].intercalate words) .flat).result =
      .ok (prologue ++ (ofInstructions 0 (nesting.linked 0) ++ epilogue)) := by
  have hwordsIn : wordsIn ([' '].intercalate words) = words :=
    wordsIn_intercalate (isWord_of_denotes h)
  obtain ⟨instructions, hread, hvalues⟩ :=
    exists_readWords_of_denotes (hwordsIn.symm ▸ h)
  have hwords : Blocks.wordsOf instructions = nesting.words := by
    rw [← hvalues]
    simp only [Blocks.wordsOf, word_eq_self]
  obtain ⟨linked, hlink⟩ := exists_link_eq_ok_iff.mpr ⟨nesting, hwords.symm⟩
  simp only [compile, compileFlat, hread, hlink]
  rw [ofWords, map_value_of_link_eq_ok hlink hwords, List.append_assoc]

/-- Labels that only differ in their numbers are those of some numbers. -/
theorem exists_numbers {scheme : Nat → Label} {places : List Label} (hnodup : places.Nodup)
    (h : ∀ place ∈ places, ∃ number, scheme number = place) :
    ∃ numbers : List Nat, numbers.Nodup ∧ numbers.map scheme = places := by
  have hrange : places ∈ Set.range (List.map scheme) := by
    rw [Set.range_list_map]
    exact h
  obtain ⟨numbers, rfl⟩ := hrange
  exact ⟨numbers, hnodup.of_map, rfl⟩

theorem exists_numbers_codeOf {statements : List Stmt} (h : Stmt.AllSupported statements) :
    ∃ numbers : List Nat, numbers.Nodup ∧
      numbers.map .branch = definitions (Stmt.codeOf 0 statements) := by
  obtain ⟨printed, hexecutes⟩ := executes_codeOf h 0
  refine exists_numbers (nodup_definitions_of_framed hexecutes.nodup_definitions) ?_
  intro place hplace
  obtain ⟨number, -, rfl⟩ := (mem_definitions_codeOf h).mp hplace
  exact ⟨number, rfl⟩

theorem exists_numbers_ofInstructions (index : Nat) (instructions : List (Instruction Nat)) :
    ∃ numbers : List Nat, numbers.Nodup ∧
      numbers.map .addr = definitions (ofInstructions index instructions) := by
  refine exists_numbers (nodup_definitions_ofInstructions index instructions) ?_
  intro place hplace
  obtain ⟨number, rfl, -⟩ := exists_addr_of_mem_definitions hplace
  exact ⟨number, rfl⟩

/-- Some renaming of its labels makes code of a tree the code of words. -/
theorem Corresponds.exists_renamed {statements : List Stmt} {instructions : List (Instruction Nat)}
    (h : Corresponds (Stmt.codeOf 0 statements) (ofInstructions 0 instructions))
    (hsupported : Stmt.AllSupported statements) :
    ∃ address : Nat → Nat, address.Injective ∧
      (Stmt.codeOf 0 statements).map (Line.relabel (Label.renamed address)) =
        ofInstructions 0 instructions := by
  obtain ⟨numbers, hnumbers, hbranches⟩ := exists_numbers_codeOf hsupported
  obtain ⟨addresses, haddresses, haddrs⟩ := exists_numbers_ofInstructions 0 instructions
  have hlength := h.length_eq
  rw [← hbranches, ← haddrs, List.length_map, List.length_map] at hlength
  obtain ⟨perm, rfl⟩ := exists_perm_map_eq hnumbers haddresses hlength
  refine ⟨perm, perm.injective, h.map_eq rfl ?_⟩
  rw [← hbranches, ← haddrs, List.map_map, List.map_map]
  rfl

/-- Code without labels corresponds only to itself. -/
theorem Corresponds.eq_of_definitions {code other : List Line} (h : Corresponds code other)
    (hnone : definitions code = []) : code = other := by
  have hother : definitions other = [] := by
    rw [← List.length_eq_zero_iff, ← h.length_eq, hnone, List.length_nil]
  have hmap : code.map (Line.relabel id) = other := h.map_eq rfl (by rw [hnone, hother]; rfl)
  rwa [List.map_congr_left fun line _ => Line.relabel_id line, List.map_id'] at hmap

/-- Both front ends agree on what both languages can say. Statements with a linear form have code,
the linear form compiles, and the programs are the same up to the names of labels; without
conditionals the texts are the same. -/
theorem agrees_of_linearOf? {statements : List Stmt} {words : List (List Char)}
    (h : Stmt.linearOf? statements = some words) :
    (ofTree statements).fault = none ∧
      ∃ lines, (compile ([' '].intercalate words) .flat).result = .ok lines ∧
        (∃ address : Nat → Nat, address.Injective ∧
          lines = (ofTree statements).lines.map (Line.relabel (Label.renamed address))) ∧
        ((∀ node ∈ Stmt.nodesOf statements, ¬ node.isIfThen ∧ ¬ node.isIfElse) →
          render lines = (ofTree statements).text) := by
  obtain ⟨hsupported, hlinearizes⟩ := linearizes_stmts h
  obtain ⟨nesting, hwords, hcorresponds⟩ := hlinearizes 0
  rw [ofTree_of_allSupported hsupported]
  refine ⟨rfl, _, compile_intercalate hwords, ?_, ?_⟩
  · obtain ⟨address, hinjective, hbody⟩ := (hcorresponds 0).exists_renamed hsupported
    refine ⟨address, hinjective, ?_⟩
    rw [List.map_append, List.map_append, hbody]
    rfl
  · intro hconditionals
    have hnone : definitions (Stmt.codeOf 0 statements) = [] := by
      refine List.eq_nil_iff_forall_not_mem.mpr ?_
      intro place hplace
      obtain ⟨number, hnumber, -⟩ := (mem_definitions_codeOf hsupported).mp hplace
      rw [armCount_eq_zero_iff.mpr hconditionals] at hnumber
      exact Nat.not_lt_zero number hnumber
    rw [Emission.text, (hcorresponds 0).eq_of_definitions hnone]

theorem agrees_of_linearOf?_nested :
    let minusTwo : Expr := .literal (.number ⟨0xC000000000000000⟩) none
    let one : Expr := .literal (.bool true) none
    let sum : Expr := .binary minusTwo ⟨.add, ⟨1, 0, 1⟩⟩ one
    let tree : List Stmt :=
      [.ifElse sum (.block [.ifThen one (.print sum)]) (.print one), .print minusTwo]
    let words := "-2 1 + if 1 if -2 1 + . end else 1 . end -2 .".toList
    ∃ lines, (compile words .flat).result = .ok lines ∧
      ∃ address : Nat → Nat, address.Injective ∧
        lines = (ofTree tree).lines.map (Line.relabel (Label.renamed address)) := by
  intro minusTwo one sum tree words
  have hlinear : (Stmt.linearOf? tree).map [' '].intercalate = some words := by decide +kernel
  obtain ⟨separate, hseparate, hwords⟩ := Option.map_eq_some_iff.mp hlinear
  obtain ⟨-, lines, hlines, hrenamed, -⟩ := agrees_of_linearOf? hseparate
  exact ⟨lines, hwords ▸ hlines, hrenamed⟩

end Assembly

end Stacklet
