import Mathlib.Data.List.Forall2
import Mathlib.Data.List.TakeWhile
import Stacklet.Proofs.Word.Linking

/-! # What words mean

A text is split at separators, every word denotes an instruction, and balanced instructions are
executed block by block on a stack. Nothing here mentions indices, targets or code: this is what
the code made of a text is measured against.
-/

namespace Stacklet

/-! ## Execution -/

/-- What a basic word makes of a stack, top first, and what it prints. Nothing comes of a stack that
holds too few values. -/
def Basic.run : Basic → List Cell → Option (List Cell × List Cell)
  | push value, stack => some (value :: stack, [])
  | plus, b :: a :: stack => some ((a + b) :: stack, [])
  | minus, b :: a :: stack => some ((a - b) :: stack, [])
  | equal, b :: a :: stack => some ((if a = b then 1 else 0) :: stack, [])
  | dump, a :: stack => some (stack, [a])
  | _, _ => none

/-- Goes on with the stack that is left, and prints behind what was printed. -/
def followedBy (outcome : Option (List Cell × List Cell))
    (next : List Cell → Option (List Cell × List Cell)) : Option (List Cell × List Cell) := do
  let (stack, printed) ← outcome
  let (stack, more) ← next stack
  return (stack, printed ++ more)

theorem followedBy_eq_some_iff {outcome : Option (List Cell × List Cell)}
    {next : List Cell → Option (List Cell × List Cell)} {result printed : List Cell} :
    followedBy outcome next = some (result, printed) ↔
      ∃ middle first more, outcome = some (middle, first) ∧ next middle = some (result, more) ∧
        printed = first ++ more := by
  simp only [followedBy, bind, Option.bind_eq_some_iff, pure, Option.some.injEq, Prod.mk.injEq]
  constructor
  · rintro ⟨⟨middle, first⟩, houtcome, ⟨_, more⟩, hnext, rfl, rfl⟩
    exact ⟨middle, first, more, houtcome, hnext, rfl⟩
  · rintro ⟨middle, first, more, houtcome, hnext, rfl⟩
    exact ⟨(middle, first), houtcome, (result, more), hnext, rfl, rfl⟩

/-- What a nesting makes of a stack, and what it prints. A block takes a value and executes its
first arm unless the value is zero. -/
def Nesting.run : Nesting → List Cell → Option (List Cell × List Cell)
  | done, stack => some (stack, [])
  | basic word rest, stack => followedBy (word.run stack) rest.run
  | ifEnd thenPart rest, value :: stack =>
    followedBy (if value = 0 then some (stack, []) else thenPart.run stack) rest.run
  | ifElse thenPart elsePart rest, value :: stack =>
    followedBy (if value = 0 then elsePart.run stack else thenPart.run stack) rest.run
  | _, [] => none

/-! ## Words -/

/-- The number that a word spells: digits, perhaps behind a sign, that fit into a cell with a
sign. -/
inductive Spells : List Char → Cell → Prop
  | natural {digits : List Char} (hne : digits ≠ []) (hdigits : digits.all Char.isDigit)
      (hbound : digitsValue digits < 0x8000000000000000) :
      Spells digits (BitVec.ofInt 64 (digitsValue digits))
  | positive {digits : List Char} (hne : digits ≠ []) (hdigits : digits.all Char.isDigit)
      (hbound : digitsValue digits < 0x8000000000000000) :
      Spells ('+' :: digits) (BitVec.ofInt 64 (digitsValue digits))
  | negative {digits : List Char} (hne : digits ≠ []) (hdigits : digits.all Char.isDigit)
      (hbound : digitsValue digits ≤ 0x8000000000000000) :
      Spells ('-' :: digits) (BitVec.ofInt 64 (-digitsValue digits))

/-- The instruction that a word stands for. -/
inductive Denotes : List Char → Instruction Unit → Prop
  | plus : Denotes ['+'] .plus
  | minus : Denotes ['-'] .minus
  | equal : Denotes ['=', '='] .equal
  | dot : Denotes ['.'] .dump
  | print : Denotes ['p', 'r', 'i', 'n', 't'] .dump
  | cond : Denotes ['i', 'f'] (.cond ())
  | alt : Denotes ['e', 'l', 's', 'e'] (.alt ())
  | close : Denotes ['e', 'n', 'd'] .close
  | number {word : List Char} {cell : Cell} (h : Spells word cell) : Denotes word (.push cell)

/-- The words of a text, each a run of characters between separators. -/
def wordsIn (text : List Char) : List (List Char) :=
  (text.splitOnP isSeparator).filter (· ≠ [])

/-- A text is read as nested blocks. -/
def Reads (text : List Char) (nesting : Nesting) : Prop :=
  List.Forall₂ Denotes (wordsIn text) nesting.words

/-! ## Reading -/

theorem wordsIn_separator {c : Char} (h : isSeparator c) (text : List Char) :
    wordsIn (c :: text) = wordsIn text := by
  rw [wordsIn, List.splitOnP_cons_eq_if_modifyHead, if_pos h]
  rfl

/-- A run of characters up to a separator or the end is a word. -/
theorem wordsIn_append {word rest : List Char} (hne : word ≠ [])
    (hword : ∀ c ∈ word, isSeparator c = false)
    (hrest : ∀ c ∈ rest.head?, isSeparator c = true) :
    wordsIn (word ++ rest) = word :: wordsIn rest := by
  cases rest with
  | nil => simp [wordsIn, List.splitOnP_eq_singleton hword, hne]
  | cons c rest =>
      have hc : isSeparator c = true := hrest c rfl
      rw [wordsIn_separator hc, wordsIn, List.splitOnP_append_cons_of_forall_mem hword c hc,
        List.filter_cons_of_pos (by simpa using hne)]
      rfl

theorem map_value_words (line offset : Nat) (text : List Char) :
    (words line offset text).map (·.value) = wordsIn text := by
  fun_induction words line offset text with
  | case1 => rfl
  | case2 line offset c rest hsep ih => rw [ih, wordsIn_separator hsep]
  | case3 line offset c rest hsep word stop ih =>
      have htext : c :: rest = word ++ rest.dropWhile isWordChar := by
        rw [List.cons_append, List.takeWhile_append_dropWhile]
      have hword : ∀ d ∈ word, isSeparator d = false := by
        intro d hd
        obtain rfl | hd := List.mem_cons.mp hd
        · simpa using hsep
        · simpa [isWordChar] using List.mem_takeWhile_imp hd
      have hrest : ∀ d ∈ (rest.dropWhile isWordChar).head?, isSeparator d = true := by
        intro d hd
        have hnot := List.head?_dropWhile_not isWordChar rest
        rw [hd] at hnot
        simpa [isWordChar] using hnot
      rw [List.map_cons, ih, htext, wordsIn_append (List.cons_ne_nil _ _) hword hrest]

theorem readCell?_positive (digits : List Char) :
    readCell? ('+' :: digits) =
      if digits ≠ [] ∧ digits.all Char.isDigit ∧ digitsValue digits < 0x8000000000000000 then
        some (BitVec.ofInt 64 (digitsValue digits))
      else none := by
  have hsign : ('+' :: digits).head? ≠ some '-' := by simp
  simp only [readCell?, if_neg hsign]
  congr 1
  grind

theorem readCell?_negative (digits : List Char) :
    readCell? ('-' :: digits) =
      if digits ≠ [] ∧ digits.all Char.isDigit ∧ digitsValue digits ≤ 0x8000000000000000 then
        some (BitVec.ofInt 64 (-digitsValue digits))
      else none := by
  have hsign : ('-' :: digits).head? = some '-' := rfl
  simp only [readCell?, if_pos hsign]
  congr 1
  grind

theorem readCell?_natural {word : List Char} (hplus : ∀ digits, word ≠ '+' :: digits)
    (hminus : ∀ digits, word ≠ '-' :: digits) :
    readCell? word =
      if word ≠ [] ∧ word.all Char.isDigit ∧ digitsValue word < 0x8000000000000000 then
        some (BitVec.ofInt 64 (digitsValue word))
      else none := by
  have hsign : word.head? ≠ some '-' := by
    intro h
    cases word with
    | nil => exact nomatch h
    | cons c digits => exact hminus digits (by rw [Option.some.inj h])
  unfold readCell?
  split
  next digits => exact absurd rfl (hplus digits)
  next digits => exact absurd rfl (hminus digits)
  next =>
    simp only [if_neg hsign]
    congr 1
    grind

theorem readCell?_eq_some_iff {word : List Char} {cell : Cell} :
    readCell? word = some cell ↔ Spells word cell := by
  constructor
  · intro h
    -- The sign tells which of the three ways of writing a number it can be.
    by_cases hplus : ∃ digits, word = '+' :: digits
    · obtain ⟨digits, rfl⟩ := hplus
      simp only [readCell?_positive, Option.ite_none_right_eq_some] at h
      obtain ⟨⟨hne, hdigits, hbound⟩, hcell⟩ := h
      cases hcell
      exact .positive hne hdigits hbound
    by_cases hminus : ∃ digits, word = '-' :: digits
    · obtain ⟨digits, rfl⟩ := hminus
      simp only [readCell?_negative, Option.ite_none_right_eq_some] at h
      obtain ⟨⟨hne, hdigits, hbound⟩, hcell⟩ := h
      cases hcell
      exact .negative hne hdigits hbound
    rw [readCell?_natural (fun digits h => hplus ⟨digits, h⟩)
      (fun digits h => hminus ⟨digits, h⟩)] at h
    simp only [Option.ite_none_right_eq_some] at h
    obtain ⟨⟨hne, hdigits, hbound⟩, hcell⟩ := h
    cases hcell
    exact .natural hne hdigits hbound
  · intro h
    cases h with
    | natural hne hdigits hbound =>
        rw [readCell?_natural, if_pos ⟨hne, hdigits, hbound⟩]
        · rintro digits rfl
          simp at hdigits
        · rintro digits rfl
          simp at hdigits
    | positive hne hdigits hbound => rw [readCell?_positive, if_pos ⟨hne, hdigits, hbound⟩]
    | negative hne hdigits hbound => rw [readCell?_negative, if_pos ⟨hne, hdigits, hbound⟩]

theorem eq_toList_of_ofList_eq {word : List Char} {text : String} (h : String.ofList word = text) :
    word = text.toList := by
  rw [← h, String.toList_ofList]

/-- The instruction read from a word is the one that it stands for. -/
theorem ofWord?_eq_some_iff {word : List Char} {instruction : Instruction Unit} :
    Instruction.ofWord? word = some instruction ↔ Denotes word instruction := by
  constructor
  · intro h
    unfold Instruction.ofWord? at h
    split at h <;> try rename_i hword; rw [eq_toList_of_ofList_eq hword]; cases h
    · exact .plus
    · exact .minus
    · exact .dot
    · exact .print
    · exact .equal
    · exact .cond
    · exact .alt
    · exact .close
    · obtain ⟨cell, hcell, rfl⟩ := Option.map_eq_some_iff.mp h
      exact .number (readCell?_eq_some_iff.mp hcell)
  · intro h
    cases h with
    | number h =>
        have hread := readCell?_eq_some_iff.mpr h
        unfold Instruction.ofWord?
        split
        case h_9 => rw [hread, Option.map_some]
        -- None of the words that stand for themselves is a number.
        all_goals
          rename_i hword
          rw [eq_toList_of_ofList_eq hword] at hread
          exact nomatch hread
    | _ => rfl

/-- An instruction was read from a word, and stands where the word does. -/
def ReadFrom (word : Located (List Char)) (instruction : Located (Instruction Unit)) : Prop :=
  Denotes word.value instruction.value ∧ instruction.span = word.span

theorem forall₂_readFrom_of_unknownWords {read : List (Located (List Char))}
    (h : unknownWords read = []) :
    List.Forall₂ ReadFrom read
      (read.filterMap fun word => (Instruction.ofWord? word.value).map (⟨·, word.span⟩)) := by
  induction read with
  | nil => exact .nil
  | cons word rest ih =>
      cases hword : Instruction.ofWord? word.value with
      | none => simp [unknownWords, hword] at h
      | some instruction =>
          have hrest : unknownWords rest = [] := by
            simpa only [unknownWords, List.filterMap_cons, hword] using h
          simp only [List.filterMap_cons, hword, Option.map_some]
          exact .cons ⟨ofWord?_eq_some_iff.mp hword, rfl⟩ (ih hrest)

/-- Every instruction of a text was read from one of its words, in order. -/
theorem forall₂_readFrom_of_readWords {text : List Char}
    {instructions : List (Located (Instruction Unit))} (h : readWords text = .ok instructions) :
    List.Forall₂ ReadFrom (words 1 0 text) instructions := by
  simp only [readWords] at h
  split at h
  next hunknown =>
    cases h
    exact forall₂_readFrom_of_unknownWords (List.isEmpty_iff.mp hunknown)
  next => exact nomatch h

/-- Reading the words of a text gives what each of them stands for. -/
theorem forall₂_denotes_of_readWords {text : List Char}
    {instructions : List (Located (Instruction Unit))} (h : readWords text = .ok instructions) :
    List.Forall₂ Denotes (wordsIn text) (instructions.map (·.value)) := by
  rw [← map_value_words 1 0 text, List.forall₂_map_left_iff, List.forall₂_map_right_iff]
  exact (forall₂_readFrom_of_readWords h).imp fun _ _ hread => hread.1

theorem denotes_rightUnique : Relator.RightUnique Denotes := by
  intro word left right hleft hright
  have heq := ofWord?_eq_some_iff.mpr hleft
  rw [ofWord?_eq_some_iff.mpr hright] at heq
  exact (Option.some.inj heq).symm

/-- The words of a text form blocks in the way in which its instructions do. -/
theorem reads_iff_of_readWords {text : List Char}
    {instructions : List (Located (Instruction Unit))} {nesting : Nesting}
    (h : readWords text = .ok instructions) :
    Reads text nesting ↔ Blocks.wordsOf instructions = nesting.words := by
  have hdenotes := forall₂_denotes_of_readWords h
  have hwords : Blocks.wordsOf instructions = instructions.map (·.value) := by
    simp only [Blocks.wordsOf, word_eq_self]
  rw [hwords, Reads]
  constructor
  · intro hreads
    exact List.right_unique_forall₂' denotes_rightUnique hdenotes hreads
  · intro heq
    rwa [heq] at hdenotes

end Stacklet
