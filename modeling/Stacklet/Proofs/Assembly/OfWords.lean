import Stacklet.Compile
import Stacklet.Proofs.Assembly.Execution
import Stacklet.Proofs.Word.Meaning

/-! # The code of words does what the words mean

The code of a nesting is followed block by block: its jumps go behind labels that the closers of
the same block define, since every label carries the index of the word that defines it.
-/

namespace Stacklet.Assembly

/-! ## Labels -/

theorem ofInstructions_append (index : Nat) (left right : List (Instruction Nat)) :
    ofInstructions index (left ++ right) =
      ofInstructions index left ++ ofInstructions (index + left.length) right := by
  induction left generalizing index with
  | nil => rfl
  | cons instruction left ih =>
      simp only [List.cons_append, ofInstructions, ih, List.append_assoc, List.length_cons]
      rw [Nat.add_right_comm, Nat.add_assoc]

/-- An instruction defines at most the label behind it. -/
theorem definitions_ofInstruction (index : Nat) (instruction : Instruction Nat) :
    definitions (ofInstruction index instruction) = [] ∨
      definitions (ofInstruction index instruction) = [.addr (index + 1)] := by
  cases instruction with
  | push value => exact .inl (definitions_push value)
  | alt target => exact .inr rfl
  | close => exact .inr rfl
  | _ => exact .inl rfl

/-- The labels of instructions carry indices beyond that of the first. -/
theorem exists_addr_of_mem_definitions {index : Nat} {instructions : List (Instruction Nat)}
    {place : Label} (h : place ∈ definitions (ofInstructions index instructions)) :
    ∃ target, place = .addr target ∧ index < target := by
  induction instructions generalizing index with
  | nil => cases h
  | cons instruction rest ih =>
      rw [ofInstructions, definitions_append, List.mem_append] at h
      rcases h with h | h
      · rcases definitions_ofInstruction index instruction with hnone | hone
        · rw [hnone] at h
          cases h
        · rw [hone] at h
          exact ⟨index + 1, List.mem_singleton.mp h, by omega⟩
      · obtain ⟨target, rfl, htarget⟩ := ih h
        exact ⟨target, rfl, by omega⟩

theorem nodup_definitions_ofInstructions (index : Nat) (instructions : List (Instruction Nat)) :
    (definitions (ofInstructions index instructions)).Nodup := by
  induction instructions generalizing index with
  | nil => exact List.nodup_nil
  | cons instruction rest ih =>
      rw [ofInstructions, definitions_append]
      rcases definitions_ofInstruction index instruction with hnone | hone
      · rw [hnone]
        exact ih (index + 1)
      · rw [hone]
        refine List.nodup_cons.mpr ⟨?_, ih (index + 1)⟩
        intro hmem
        obtain ⟨target, heq, htarget⟩ := exists_addr_of_mem_definitions hmem
        cases heq
        omega

/-- No label is defined twice in the program of linked instructions. -/
theorem nodup_definitions_ofWords (instructions : List (Located (Instruction Nat))) :
    (definitions (ofWords instructions)).Nodup := by
  rw [ofWords, definitions_append, definitions_append, definitions_prologue, definitions_epilogue,
    List.append_nil]
  refine List.nodup_append.mpr ⟨by decide, nodup_definitions_ofInstructions _ _, ?_⟩
  intro place hplace other hother
  obtain ⟨target, rfl, -⟩ := exists_addr_of_mem_definitions hother
  rintro rfl
  simp at hplace

/-! ## Execution -/

variable {clobber : Machine → (Register → Cell) × Flags} {program : List Line}
variable {below stack output : List Cell} {rest : List Line}

/-- The code of a basic word does to the stack what the word does. -/
theorem leads_basic {word : Basic} {index : Nat} {result printed : List Cell}
    (h : word.run stack = some (result, printed)) :
    Leads clobber program below
      ⟨ofInstruction index word.instruction ++ rest, stack ++ below, output⟩
      ⟨rest, result ++ below, output ++ printed⟩ := by
  match word, stack, h with
  | .push value, stack, h =>
      cases h
      rw [List.append_nil]
      exact leads_push (List.suffix_append _ _)
  | .plus, b :: a :: stack, h =>
      cases h
      rw [List.append_nil]
      exact leads_plus (List.suffix_append _ _)
  | .minus, b :: a :: stack, h =>
      cases h
      rw [List.append_nil]
      exact leads_minus (List.suffix_append _ _)
  | .equal, b :: a :: stack, h =>
      cases h
      rw [List.append_nil]
      exact leads_compare rfl rfl (List.suffix_append _ _)
  | .dump, a :: stack, h =>
      cases h
      exact leads_dump (List.suffix_append _ _)

theorem ofInstructions_ifEnd (index : Nat) (thenPart more : Nesting) :
    ofInstructions index ((Nesting.ifEnd thenPart more).linked index) =
      jumpIfZero (.addr (index + 1 + thenPart.size + 1)) ++
        (ofInstructions (index + 1) (thenPart.linked (index + 1)) ++
          .label (.addr (index + 1 + thenPart.size + 1)) ::
            ofInstructions (index + 1 + thenPart.size + 1)
              (more.linked (index + 1 + thenPart.size + 1))) := by
  simp only [Nesting.linked, ofInstructions, ofInstructions_append, Nesting.length_linked]
  rfl

theorem ofInstructions_ifElse (index : Nat) (thenPart elsePart more : Nesting) :
    ofInstructions index ((Nesting.ifElse thenPart elsePart more).linked index) =
      jumpIfZero (.addr (index + 1 + thenPart.size + 1)) ++
        (ofInstructions (index + 1) (thenPart.linked (index + 1)) ++
          (otherwise (.addr (index + 1 + thenPart.size + 1 + elsePart.size + 1))
              (.addr (index + 1 + thenPart.size + 1)) ++
            (ofInstructions (index + 1 + thenPart.size + 1)
                (elsePart.linked (index + 1 + thenPart.size + 1)) ++
              .label (.addr (index + 1 + thenPart.size + 1 + elsePart.size + 1)) ::
                ofInstructions (index + 1 + thenPart.size + 1 + elsePart.size + 1)
                  (more.linked (index + 1 + thenPart.size + 1 + elsePart.size + 1))))) := by
  simp only [Nesting.linked, ofInstructions, ofInstructions_append, Nesting.length_linked]
  rfl

/-- The code of a nesting anywhere in a program does to the stack what the nesting does. The
induction is over the nesting; the labels of a block are found because the code around it is part of
the program too. -/
theorem leads_nesting (hnodup : (definitions program).Nodup) {nesting : Nesting} {index : Nat}
    {result printed : List Cell}
    (hcode : ofInstructions index (nesting.linked index) ++ rest <:+ program)
    (h : nesting.run stack = some (result, printed)) :
    Leads clobber program below
      ⟨ofInstructions index (nesting.linked index) ++ rest, stack ++ below, output⟩
      ⟨rest, result ++ below, output ++ printed⟩ := by
  induction nesting generalizing index stack output rest result printed with
  | done =>
      cases h
      rw [List.append_nil]
      exact .refl (List.suffix_append _ _)
  | basic word more ih =>
      obtain ⟨middle, first, second, hword, hmore, rfl⟩ := followedBy_eq_some_iff.mp h
      rw [Nesting.linked, ofInstructions, List.append_assoc] at hcode ⊢
      rw [← List.append_assoc output]
      exact (leads_basic hword).trans
        (ih ((List.suffix_append _ _).trans hcode) hmore)
  | ifEnd thenPart more ihThen ih =>
      obtain _ | ⟨value, lower⟩ := stack
      · cases h
      obtain ⟨middle, first, second, hthen, hmore, rfl⟩ := followedBy_eq_some_iff.mp h
      simp only [ofInstructions_ifEnd, List.append_assoc, List.cons_append] at hcode ⊢
      -- Every piece of the code is a suffix of the program, and so the label is found in it.
      have hthenCode := (List.suffix_append _ _).trans hcode
      have hlabel := (List.suffix_append _ _).trans hthenCode
      have hmoreCode := (List.suffix_cons _ _).trans hlabel
      have hjump := behind_of_nodup hnodup hlabel
      rw [← List.append_assoc output]
      refine (leads_jumpIfZero hjump (List.suffix_append _ _)).trans ?_
      by_cases hzero : value = 0
      · rw [if_pos hzero] at hthen ⊢
        cases hthen
        rw [List.append_nil]
        exact ih hmoreCode hmore
      · rw [if_neg hzero] at hthen ⊢
        refine (ihThen hthenCode hthen).trans ?_
        exact (leads_label (List.suffix_append _ _)).trans (ih hmoreCode hmore)
  | ifElse thenPart elsePart more ihThen ihElse ih =>
      obtain _ | ⟨value, lower⟩ := stack
      · cases h
      obtain ⟨middle, first, second, harm, hmore, rfl⟩ := followedBy_eq_some_iff.mp h
      simp only [ofInstructions_ifElse, List.append_assoc, List.cons_append] at hcode ⊢
      have hthenCode := (List.suffix_append _ _).trans hcode
      have hother := (List.suffix_append _ _).trans hthenCode
      have hlanding := (suffix_otherwise _ _ _).trans hother
      have helseCode := (List.suffix_cons _ _).trans hlanding
      have hlabel := (List.suffix_append _ _).trans helseCode
      have hmoreCode := (List.suffix_cons _ _).trans hlabel
      have hjump := behind_of_nodup hnodup hlanding
      have hexit := behind_of_nodup hnodup hlabel
      rw [← List.append_assoc output]
      refine (leads_jumpIfZero hjump (List.suffix_append _ _)).trans ?_
      by_cases hzero : value = 0
      · rw [if_pos hzero] at harm ⊢
        refine (ihElse helseCode harm).trans ?_
        exact (leads_label (List.suffix_append _ _)).trans (ih hmoreCode hmore)
      · rw [if_neg hzero] at harm ⊢
        refine (ihThen hthenCode harm).trans ?_
        exact (leads_otherwise hexit (List.suffix_append _ _)).trans (ih hmoreCode hmore)

/-! ## Texts -/

theorem legible_ofInstruction (index : Nat) (instruction : Instruction Nat) :
    ∀ line ∈ ofInstruction index instruction, line.Legible := by
  cases instruction with
  | push value => exact legible_push value
  | plus => exact legible_fixed plus (by simp [fixedTemplates])
  | minus => exact legible_fixed minus (by simp [fixedTemplates])
  | equal => exact legible_fixed equal (by simp [fixedTemplates])
  | dump => exact legible_fixed dump (by simp [fixedTemplates])
  | cond target => exact legible_jumpIfZero (.addr target)
  | alt target => exact legible_otherwise (.addr target) (.addr (index + 1))
  | close => exact List.forall_mem_singleton.mpr (Line.legible_label (.addr (index + 1)))

theorem legible_ofInstructions (index : Nat) (instructions : List (Instruction Nat)) :
    ∀ line ∈ ofInstructions index instructions, line.Legible := by
  induction instructions generalizing index with
  | nil => exact List.forall_mem_nil _
  | cons instruction rest ih =>
      rw [ofInstructions]
      exact List.forall_mem_append.mpr ⟨legible_ofInstruction index instruction, ih (index + 1)⟩

theorem computes_ofWords {linked : List (Located (Instruction Nat))} {nesting : Nesting}
    {stack result printed : List Cell} (hlinked : linked.map (·.value) = nesting.linked 0)
    (h : nesting.run stack = some (result, printed)) :
    Computes (render (ofWords linked)) stack result printed := by
  have hnodup := nodup_definitions_ofWords linked
  rw [ofWords, hlinked, List.append_assoc] at hnodup ⊢
  refine computes_of_leads (legible_ofInstructions 0 _) ?_
  intro clobber below
  exact leads_nesting hnodup (List.suffix_append _ _) h

/-- What compiles is words that link, and its lines are their code. -/
theorem exists_link_of_compileFlat {text : List Char} {lines : List Line}
    (h : (compileFlat text).result = .ok lines) :
    ∃ instructions linked, readWords text = .ok instructions ∧ link instructions = .ok linked ∧
      lines = ofWords linked := by
  unfold compileFlat at h
  split at h
  · cases h
  next instructions hread =>
    split at h
    · cases h
    next linked hlink =>
      cases h
      exact ⟨instructions, linked, hread, hlink, rfl⟩

/-- The flat compiler is correct: a text that compiles is read as blocks in exactly one way, and its
code makes of every stack what the blocks make of it. -/
theorem computes_of_compile_flat {text : List Char} {lines : List Line}
    (h : (compile text .flat).result = .ok lines) :
    (∃! nesting, Reads text nesting) ∧
      ∀ nesting stack result printed, Reads text nesting →
        nesting.run stack = some (result, printed) →
        Computes (render lines) stack result printed := by
  obtain ⟨instructions, linked, hread, hlink, rfl⟩ := exists_link_of_compileFlat h
  obtain ⟨nesting, hwords⟩ := exists_link_eq_ok_iff.mp ⟨linked, hlink⟩
  have hreads : ∀ other, Reads text other ↔ nesting = other := by
    intro other
    rw [reads_iff_of_readWords hread, ← hwords]
    exact ⟨fun heq => Nesting.words_injective heq, congrArg Nesting.words⟩
  constructor
  · exact ⟨nesting, (hreads nesting).mpr rfl, fun other hother => ((hreads other).mp hother).symm⟩
  · intro other stack result printed hother hrun
    cases (hreads other).mp hother
    exact computes_ofWords (map_value_of_link_eq_ok hlink hwords.symm) hrun

theorem computes_of_compile_flat_difference :
    ∃ lines, (compile "-1 7 - if 2 . else 3 . end".toList .flat).result = .ok lines ∧
      Computes (render lines) [4] [4] [2] := by
  have hwords : wordsIn "-1 7 - if 2 . else 3 . end".toList =
      [['-', '1'], ['7'], ['-'], ['i', 'f'], ['2'], ['.'], ['e', 'l', 's', 'e'], ['3'], ['.'],
        ['e', 'n', 'd']] := by
    decide +kernel
  have hreads : Reads "-1 7 - if 2 . else 3 . end".toList
      (.basic (.push (-1)) <| .basic (.push 7) <| .basic .minus <| .ifElse
        (.basic (.push 2) <| .basic .dump .done) (.basic (.push 3) <| .basic .dump .done)
        .done) := by
    rw [Reads, hwords]
    have hone : Spells ('-' :: ['1']) (-1) := .negative (by decide) rfl (by decide)
    have htwo : Spells ['2'] 2 := .natural (by decide) rfl (by decide)
    have hthree : Spells ['3'] 3 := .natural (by decide) rfl (by decide)
    have hseven : Spells ['7'] 7 := .natural (by decide) rfl (by decide)
    exact .cons (.number hone) <| .cons (.number hseven) <| .cons .minus <| .cons .cond <|
      .cons (.number htwo) <| .cons .dot <| .cons .alt <| .cons (.number hthree) <| .cons .dot <|
      .cons .close .nil
  have hcompile : ∃ lines,
      (compile "-1 7 - if 2 . else 3 . end".toList .flat).result = .ok lines := by
    have hok : (compile "-1 7 - if 2 . else 3 . end".toList .flat).result.isOk = true := by
      decide +kernel
    cases hresult : (compile "-1 7 - if 2 . else 3 . end".toList .flat).result with
    | ok lines => exact ⟨lines, rfl⟩
    | error messages =>
        rw [hresult] at hok
        cases hok
  obtain ⟨lines, hlines⟩ := hcompile
  exact ⟨lines, hlines, (computes_of_compile_flat hlines).2 _ [4] [4] [2] hreads rfl⟩

end Stacklet.Assembly
