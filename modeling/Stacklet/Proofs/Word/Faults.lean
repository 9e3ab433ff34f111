import Stacklet.Proofs.Word.Patching

/-! # The first fault of words

Words from the left can be completed to balanced ones until one of them closes or continues what is
not open. That word is the fault that linking names. If all words together can still be completed,
but are not complete, the fault is with the opener of the innermost arm that is open. Both follow
from what some words leave open, which is all that linking remembers of them.
-/

namespace Stacklet

/-- Words behind which others can make everything balanced. -/
def Completable (words : List (Instruction Unit)) : Prop :=
  ∃ behind, Balanced (words ++ behind)

open Blocks

/-- The word at an index opened the innermost of the arms that some words leave open: what stands
behind it is balanced. -/
def OpenedAt (words : List (Instruction Unit)) (index : Nat) (opener : Instruction Unit) : Prop :=
  ∃ before inner, words = before ++ opener :: inner ∧ before.length = index ∧
    (armOf? opener).isSome ∧ Balanced inner

/-- Why a word cannot stand behind words that are completable. -/
inductive Misplaced (front : List (Instruction Unit)) : Instruction Unit → BlockError → Prop
  | unmatchedEnd (h : Balanced front) : Misplaced front .close .unmatchedEnd
  | unmatchedElse (h : Balanced front) : Misplaced front (.alt ()) .unmatchedElse
  | elseAfterElse {index : Nat} (h : OpenedAt front index (.alt ())) :
      Misplaced front (.alt ()) .elseAfterElse

namespace Balanced

variable {front behind : List (Instruction Unit)}

theorem nil : Balanced [] :=
  ⟨.done, rfl⟩

theorem append (hfront : Balanced front) (hbehind : Balanced behind) :
    Balanced (front ++ behind) := by
  obtain ⟨nesting, rfl⟩ := hfront
  obtain ⟨other, rfl⟩ := hbehind
  exact ⟨nesting.append other, Nesting.words_append nesting other⟩

theorem basic (word : Basic) : Balanced [word.instruction] :=
  ⟨.basic word .done, rfl⟩

theorem ifEnd (h : Balanced front) : Balanced (.cond () :: (front ++ [.close])) := by
  obtain ⟨nesting, rfl⟩ := h
  exact ⟨.ifEnd nesting .done, rfl⟩

theorem ifElse (h : Balanced front) (hother : Balanced behind) :
    Balanced (.cond () :: (front ++ .alt () :: (behind ++ [.close]))) := by
  obtain ⟨nesting, rfl⟩ := h
  obtain ⟨other, rfl⟩ := hother
  exact ⟨.ifElse nesting other .done, rfl⟩

end Balanced

theorem Completable.take {words : List (Instruction Unit)} (h : Completable words) (count : Nat) :
    Completable (words.take count) := by
  obtain ⟨behind, hbalanced⟩ := h
  refine ⟨words.drop count ++ behind, ?_⟩
  rwa [← List.append_assoc, List.take_append_drop]

namespace Blocks

/-- Words in their places, targets apart. -/
abbrev Placed := List (Located (Instruction Unit))

/-- Words leave some arms open, innermost first: each was opened by a word behind which all is
balanced up to the opener of the next. The other arm of a block takes the place of the first. -/
inductive Leaves : Placed → List (Located Arm) → Prop
  | balanced {front : Placed} (h : Balanced (wordsOf front)) : Leaves front []
  | cond {front inner : Placed} {arms : List (Located Arm)} (h : Leaves front arms) (span : Span)
      (hinner : Balanced (wordsOf inner)) :
      Leaves (front ++ ⟨.cond (), span⟩ :: inner) (⟨.first, span⟩ :: arms)
  | alt {front inner : Placed} {arms : List (Located Arm)} {place : Span}
      (h : Leaves front (⟨.first, place⟩ :: arms)) (span : Span)
      (hinner : Balanced (wordsOf inner)) :
      Leaves (front ++ ⟨.alt (), span⟩ :: inner) (⟨.other, span⟩ :: arms)

@[simp] theorem wordsOf_append {τ : Type} (front back : List (Located (Instruction τ))) :
    wordsOf (front ++ back) = wordsOf front ++ wordsOf back :=
  List.map_append

@[simp] theorem wordsOf_cons {τ : Type} (instruction : Instruction τ) (span : Span)
    (rest : List (Located (Instruction τ))) :
    wordsOf (⟨instruction, span⟩ :: rest) = instruction.word :: wordsOf rest := rfl

@[simp] theorem wordsOf_nil {τ : Type} : wordsOf ([] : List (Located (Instruction τ))) = [] := rfl

namespace Leaves

variable {front inner : Placed} {arms : List (Located Arm)}

/-- Balanced words behind others leave open what those do. -/
theorem append (h : Leaves front arms) (hinner : Balanced (wordsOf inner)) :
    Leaves (front ++ inner) arms := by
  cases h with
  | balanced hfront => exact .balanced (wordsOf_append front inner ▸ hfront.append hinner)
  | cond h span hbetween =>
      rw [List.append_assoc, List.cons_append]
      exact h.cond span (wordsOf_append _ inner ▸ hbetween.append hinner)
  | alt h span hbetween =>
      rw [List.append_assoc, List.cons_append]
      exact h.alt span (wordsOf_append _ inner ▸ hbetween.append hinner)

/-- A word that closes the innermost arm leaves the outer ones open. -/
theorem close {arm : Located Arm} (h : Leaves front (arm :: arms)) (span : Span) :
    Leaves (front ++ [⟨.close, span⟩]) arms := by
  cases h with
  | @cond before inner _ h opener hinner =>
      have hblock : Balanced (wordsOf (⟨.cond (), opener⟩ :: (inner ++ [⟨.close, span⟩]))) := by
        simpa [Instruction.word, Instruction.map] using hinner.ifEnd
      simpa using h.append hblock
  | @alt before inner _ place h middle hinner =>
      cases h with
      | @cond outer between _ h opener hbetween =>
          have hblock : Balanced (wordsOf (⟨.cond (), place⟩ :: (between ++ ⟨.alt (), middle⟩ ::
              (inner ++ [⟨.close, span⟩])))) := by
            simpa [Instruction.word, Instruction.map] using hbetween.ifElse hinner
          simpa using h.append hblock

/-- What is open is all that matters for the words behind. -/
theorem fault?_append (h : Leaves front arms) (back : Placed) :
    fault? [] (front ++ back) = fault? arms back := by
  induction h generalizing back with
  | balanced hfront =>
      obtain ⟨nesting, hwords⟩ := hfront
      exact Blocks.fault?_append hwords.symm back []
  | cond h span hinner ih =>
      obtain ⟨nesting, hwords⟩ := hinner
      rw [List.append_assoc, ih, List.cons_append, fault?, Blocks.fault?_append hwords.symm]
  | alt h span hinner ih =>
      obtain ⟨nesting, hwords⟩ := hinner
      rw [List.append_assoc, ih, List.cons_append, fault?, Blocks.fault?_append hwords.symm]

theorem balanced_of_nil (h : Leaves front []) : Balanced (wordsOf front) := by
  cases h with
  | balanced h => exact h

/-- The innermost of the open arms is where an opener has only balanced words behind it. -/
theorem openedAt {arm : Located Arm} (h : Leaves front (arm :: arms)) :
    ∃ index opener, front[index]? = some ⟨opener, arm.span⟩ ∧ armOf? opener = some arm.value ∧
      OpenedAt (wordsOf front) index opener := by
  cases h with
  | @cond before inner _ h span hinner =>
      exact ⟨before.length, .cond (), getElem?_append_length rfl, rfl, wordsOf before, wordsOf inner,
        by simp [Instruction.word, Instruction.map], List.length_map _, rfl, hinner⟩
  | @alt before inner _ _ h span hinner =>
      exact ⟨before.length, .alt (), getElem?_append_length rfl, rfl, wordsOf before, wordsOf inner,
        by simp [Instruction.word, Instruction.map], List.length_map _, rfl, hinner⟩

/-- Closing what is open completes the words. -/
theorem completable (h : Leaves front arms) : Completable (wordsOf front) := by
  induction arms generalizing front with
  | nil => exact ⟨[], by rw [List.append_nil]; exact h.balanced_of_nil⟩
  | cons arm outer ih =>
      obtain ⟨behind, hbalanced⟩ := ih (h.close arm.span)
      rw [wordsOf_append, List.append_assoc] at hbalanced
      exact ⟨_, hbalanced⟩

end Leaves

/-- A word that cannot follow when some arms are open. -/
inductive Rejects : List (Located Arm) → Located (Instruction Unit) → Located BlockError → Prop
  | unmatchedEnd (span : Span) : Rejects [] ⟨.close, span⟩ ⟨.unmatchedEnd, span⟩
  | unmatchedElse (span : Span) : Rejects [] ⟨.alt (), span⟩ ⟨.unmatchedElse, span⟩
  | elseAfterElse (place span : Span) (outer : List (Located Arm)) :
      Rejects (⟨.other, place⟩ :: outer) ⟨.alt (), span⟩ ⟨.elseAfterElse, span⟩

theorem Rejects.fault?_cons {arms : List (Located Arm)} {word : Located (Instruction Unit)}
    {error : Located BlockError} (h : Rejects arms word error) (back : Placed) :
    fault? arms (word :: back) = some error := by
  cases h <;> rfl

/-- A rejected word is in the way of every completion. -/
theorem Rejects.not_completable {front : Placed} {arms : List (Located Arm)}
    {word : Located (Instruction Unit)} {error : Located BlockError} (h : Rejects arms word error)
    (hfront : Leaves front arms) : ¬ Completable (wordsOf (front ++ [word])) := by
  rintro ⟨behind, hbalanced⟩
  have hwords : wordsOf (front ++ word :: behind.map (⟨·, ⟨0, 0, 0⟩⟩)) =
      wordsOf (front ++ [word]) ++ behind := by
    simp [wordsOf, Function.comp_def, word_eq_self]
  have hnone := fault?_eq_none_iff.mpr (hwords ▸ hbalanced)
  rw [hfront.fault?_append, h.fault?_cons] at hnone
  cases hnone

/-- The fault is named for what the arms that are open mean for the word. -/
theorem Rejects.misplaced {front : Placed} {arms : List (Located Arm)}
    {word : Located (Instruction Unit)} {error : Located BlockError} (h : Rejects arms word error)
    (hfront : Leaves front arms) :
    error.span = word.span ∧ Misplaced (wordsOf front) word.value error.value := by
  cases h with
  | unmatchedEnd span => exact ⟨rfl, .unmatchedEnd hfront.balanced_of_nil⟩
  | unmatchedElse span => exact ⟨rfl, .unmatchedElse hfront.balanced_of_nil⟩
  | elseAfterElse place span outer =>
      obtain ⟨index, opener, -, harm, hopened⟩ := hfront.openedAt
      cases opener <;> cases harm
      exact ⟨rfl, .elseAfterElse hopened⟩

/-- How an error comes about: a word is rejected by the arms that the words before it leave open, or
an arm is open at the end. -/
inductive Arises : Placed → Located BlockError → Prop
  | rejected {front rest : Placed} {arms : List (Located Arm)} {word : Located (Instruction Unit)}
      {error : Located BlockError} (hfront : Leaves front arms) (h : Rejects arms word error) :
      Arises (front ++ word :: rest) error
  | unclosed {words : Placed} {arm : Located Arm} {outer : List (Located Arm)}
      (h : Leaves words (arm :: outer)) : Arises words ⟨.unclosed, arm.span⟩

theorem arises_of_fault? {front back : Placed} {arms : List (Located Arm)}
    {error : Located BlockError} (hfront : Leaves front arms) (h : fault? arms back = some error) :
    Arises (front ++ back) error := by
  induction back generalizing front arms with
  | nil =>
      cases arms with
      | nil => cases h
      | cons arm outer =>
          cases h
          rw [List.append_nil]
          exact .unclosed hfront
  | cons word rest ih =>
      have hgo : ∀ {next : List (Located Arm)}, Leaves (front ++ [word]) next →
          fault? next rest = some error → Arises (front ++ word :: rest) error := by
        intro next hnext hfault
        have hrest := ih hnext hfault
        rwa [List.append_assoc] at hrest
      obtain ⟨instruction, span⟩ := word
      cases instruction with
      | cond target => exact hgo (hfront.cond span .nil) h
      | alt target =>
          match arms, h with
          | [], h =>
              cases h
              exact .rejected hfront (.unmatchedElse span)
          | ⟨.first, place⟩ :: outer, h => exact hgo (hfront.alt span .nil) h
          | ⟨.other, place⟩ :: outer, h =>
              cases h
              exact .rejected hfront (.elseAfterElse place span outer)
      | close =>
          match arms, h with
          | [], h =>
              cases h
              exact .rejected hfront (.unmatchedEnd span)
          | arm :: outer, h => exact hgo (hfront.close span) h
      | push value => exact hgo (hfront.append (.basic (.push value))) h
      | plus => exact hgo (hfront.append (.basic .plus)) h
      | minus => exact hgo (hfront.append (.basic .minus)) h
      | equal => exact hgo (hfront.append (.basic .equal)) h
      | dump => exact hgo (hfront.append (.basic .dump)) h

theorem Arises.ne_mismatchedEnd {words : Placed} {error : Located BlockError}
    (h : Arises words error) (found : Instruction Unit) : error.value ≠ .mismatchedEnd found := by
  cases h with
  | rejected hfront h => cases h <;> exact nofun
  | unclosed h => exact nofun

theorem take_wordsOf_append (front : Placed) (word : Located (Instruction Unit)) (rest : Placed) :
    (wordsOf (front ++ word :: rest)).take (front.length + 1) = wordsOf (front ++ [word]) := by
  have htake : (front ++ word :: rest).take (front.length + 1) = front ++ [word] := by
    rw [List.take_length_add_append, List.take_succ_cons, List.take_zero]
  rw [← htake, wordsOf, wordsOf, List.map_take]

/-- The fewest words that cannot be completed end with the word in error. -/
theorem Arises.misplaced {words : Placed} {error : Located BlockError} (h : Arises words error)
    {count : Nat} (hcount : ¬ Completable ((wordsOf words).take count))
    (hfewer : ∀ fewer < count, Completable ((wordsOf words).take fewer)) :
    ∃ index word, count = index + 1 ∧ words[index]? = some ⟨word, error.span⟩ ∧
      Misplaced ((wordsOf words).take index) word error.value := by
  cases h with
  | unclosed h => exact absurd (h.completable.take count) hcount
  | @rejected front rest arms word _ hfront h =>
      have hbefore : (wordsOf (front ++ word :: rest)).take front.length = wordsOf front := by
        simp [wordsOf]
      have hlower : front.length < count := by
        by_contra hle
        have htake := hfront.completable.take count
        rw [← hbefore, List.take_take, Nat.min_eq_left (Nat.le_of_not_lt hle)] at htake
        exact hcount htake
      have hupper : count ≤ front.length + 1 := by
        by_contra hlt
        have htake := hfewer (front.length + 1) (Nat.lt_of_not_le hlt)
        rw [take_wordsOf_append] at htake
        exact h.not_completable hfront htake
      obtain ⟨hspan, hmisplaced⟩ := h.misplaced hfront
      refine ⟨front.length, word.value, by omega, ?_, hbefore.symm ▸ hmisplaced⟩
      rw [hspan]
      exact getElem?_append_length rfl

/-- Without a word in error, the innermost open arm is. -/
theorem Arises.openedAt {words : Placed} {error : Located BlockError} (h : Arises words error)
    (hall : ∀ count, Completable ((wordsOf words).take count)) :
    error.value = .unclosed ∧ ∃ index opener, words[index]? = some ⟨opener, error.span⟩ ∧
      OpenedAt (wordsOf words) index opener := by
  cases h with
  | unclosed h =>
      obtain ⟨index, opener, hfound, -, hopened⟩ := h.openedAt
      exact ⟨rfl, index, opener, hfound, hopened⟩
  | @rejected front rest arms word _ hfront h =>
      have hwith := hall (front.length + 1)
      rw [take_wordsOf_append] at hwith
      exact absurd hwith (h.not_completable hfront)

theorem wordsOf_outline {τ : Type} (instructions : List (Located (Instruction τ))) :
    wordsOf (outline instructions) = wordsOf instructions := by
  simp [wordsOf, outline, Located.map, Function.comp_def, word_eq_self]

end Blocks

/-- An error names the first fault of instructions. -/
structure NamesFirstFault (instructions : Draft) (error : Located BlockError) : Prop where
  /-- No index that is kept for an opener is that of another word. -/
  ne_mismatchedEnd : ∀ found, error.value ≠ .mismatchedEnd found
  /-- If some words from the left cannot be completed, the error is placed at the last of the fewest
  such words, and says why that word is misplaced. -/
  misplaced : ∀ count, ¬ Completable ((wordsOf instructions).take count) →
    (∀ fewer < count, Completable ((wordsOf instructions).take fewer)) →
    ∃ index word, count = index + 1 ∧ instructions[index]? = some word ∧ error.span = word.span ∧
      Misplaced ((wordsOf instructions).take index) word.value.word error.value
  /-- Otherwise a block is not closed, and the error is at the opener of the innermost arm. -/
  unclosed : (∀ count, Completable ((wordsOf instructions).take count)) →
    error.value = .unclosed ∧ ∃ index opener, instructions[index]? = some opener ∧
      error.span = opener.span ∧ OpenedAt (wordsOf instructions) index opener.value.word

/-- Linking in place comes to what linking comes to, and where that is an error, it names the first
fault. -/
theorem link_names_first_fault (instructions : Draft) :
    linkInPlace instructions = (link instructions).map filled ∧
      ∀ error, link instructions = .error error → NamesFirstFault instructions error := by
  refine ⟨linkInPlace_eq instructions, ?_⟩
  intro error h
  have hfault : fault? [] (outline instructions) = some error := by
    rw [fault?_outline]
    unfold link at h
    split at h
    next found hfound =>
      cases h
      exact hfound
    next => cases h
  have hnothing : Leaves [] [] := .balanced .nil
  have harises := arises_of_fault? hnothing hfault
  rw [List.nil_append] at harises
  refine ⟨harises.ne_mismatchedEnd, ?_, ?_⟩
  · intro count hcount hfewer
    rw [← wordsOf_outline] at hcount hfewer ⊢
    obtain ⟨index, word, hindex, hfound, hmisplaced⟩ := harises.misplaced hcount hfewer
    obtain ⟨instruction, hinstruction, rfl⟩ := getElem?_outline hfound
    exact ⟨index, _, hindex, hinstruction, rfl, hmisplaced⟩
  · intro hall
    rw [← wordsOf_outline] at hall ⊢
    obtain ⟨hunclosed, index, word, hfound, hopened⟩ := harises.openedAt hall
    obtain ⟨instruction, hinstruction, rfl⟩ := getElem?_outline hfound
    exact ⟨hunclosed, index, _, hinstruction, rfl, hopened⟩

/-- The second `else` of a block is at fault, although further on a block is not closed, either. -/
theorem link_names_first_fault_second_else :
    link ([⟨.cond none, ⟨1, 0, 2⟩⟩, ⟨.alt (some 9), ⟨1, 3, 7⟩⟩, ⟨.push 4, ⟨2, 8, 9⟩⟩,
        ⟨.alt none, ⟨2, 10, 14⟩⟩, ⟨.cond none, ⟨2, 15, 17⟩⟩] : Draft) =
      .error ⟨.elseAfterElse, ⟨2, 10, 14⟩⟩ ∧
    NamesFirstFault [⟨.cond none, ⟨1, 0, 2⟩⟩, ⟨.alt (some 9), ⟨1, 3, 7⟩⟩, ⟨.push 4, ⟨2, 8, 9⟩⟩,
        ⟨.alt none, ⟨2, 10, 14⟩⟩, ⟨.cond none, ⟨2, 15, 17⟩⟩] ⟨.elseAfterElse, ⟨2, 10, 14⟩⟩ :=
  ⟨rfl, (link_names_first_fault _).2 _ rfl⟩

end Stacklet
