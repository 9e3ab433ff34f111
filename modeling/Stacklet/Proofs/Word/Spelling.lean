import Stacklet.Proofs.Assembly.Reading
import Stacklet.Proofs.Word.Meaning

/-! # Words that are written

Instructions can be written down: words that stand for them, with separators between, are the words
of the text and are read as the instructions again. Every number of a cell has a word.
-/

namespace Stacklet

/-! ## Characters of words -/

theorem isSeparator_of_isDigit {c : Char} (h : c.isDigit) : isSeparator c = false := by
  rw [Char.isDigit, Bool.and_eq_true, decide_eq_true_eq, decide_eq_true_eq] at h
  by_contra hseparator
  simp only [isSeparator, Bool.or_eq_true, decide_eq_true_eq, Bool.not_eq_false] at hseparator
  obtain (((((rfl | rfl) | rfl) | rfl) | rfl) | rfl) | rfl := hseparator
  all_goals exact absurd h.1 (by decide)

/-- The characters of a number are its digits and perhaps a sign. -/
theorem Spells.isWord {word : List Char} {cell : Cell} (h : Spells word cell) :
    word ≠ [] ∧ ∀ c ∈ word, isSeparator c = false := by
  have digits_ok : ∀ {digits : List Char}, digits.all Char.isDigit = true →
      ∀ c ∈ digits, isSeparator c = false := by
    intro digits hdigits c hc
    exact isSeparator_of_isDigit (List.all_eq_true.mp hdigits c hc)
  cases h with
  | natural hne hdigits _ => exact ⟨hne, digits_ok hdigits⟩
  | positive _ hdigits _ =>
      exact ⟨List.cons_ne_nil _ _, List.forall_mem_cons.mpr ⟨rfl, digits_ok hdigits⟩⟩
  | negative _ hdigits _ =>
      exact ⟨List.cons_ne_nil _ _, List.forall_mem_cons.mpr ⟨rfl, digits_ok hdigits⟩⟩

/-- What stands for an instruction is a word. -/
theorem Denotes.isWord {word : List Char} {instruction : Instruction Unit}
    (h : Denotes word instruction) : word ≠ [] ∧ ∀ c ∈ word, isSeparator c = false := by
  cases h with
  | number h => exact h.isWord
  | _ => simp [isSeparator]

/-! ## Texts -/

theorem wordsIn_nil : wordsIn [] = [] := rfl

/-- A text that consists of words, with separators between any two. -/
inductive Joined : List (List Char) → List Char → Prop
  | nil : Joined [] []
  | single (word : List Char) : Joined [word] word
  | cons {word gap next text : List Char} {more : List (List Char)} (hgap : gap ≠ [])
      (hseparators : ∀ c ∈ gap, isSeparator c = true) (hmore : Joined (next :: more) text) :
      Joined (word :: next :: more) (word ++ (gap ++ text))

theorem joined_intercalate {gap : List Char} (hgap : gap ≠ [])
    (hseparators : ∀ c ∈ gap, isSeparator c = true) (words : List (List Char)) :
    Joined words (gap.intercalate words) := by
  induction words with
  | nil => exact .nil
  | cons word rest ih =>
      cases rest with
      | nil => simpa using Joined.single word
      | cons next more =>
          rw [List.intercalate_cons_cons, List.append_assoc]
          exact .cons hgap hseparators ih

theorem wordsIn_gap {gap : List Char} (h : ∀ c ∈ gap, isSeparator c = true) (text : List Char) :
    wordsIn (gap ++ text) = wordsIn text := by
  induction gap with
  | nil => rfl
  | cons c gap ih =>
      obtain ⟨hc, hgap⟩ := List.forall_mem_cons.mp h
      rw [List.cons_append, wordsIn_separator hc, ih hgap]

/-- Words with separators between are the words of their text. -/
theorem wordsIn_of_joined {words : List (List Char)} {text : List Char} (h : Joined words text)
    (hwords : ∀ word ∈ words, word ≠ [] ∧ ∀ c ∈ word, isSeparator c = false) :
    wordsIn text = words := by
  induction h with
  | nil => rfl
  | single word =>
      obtain ⟨hne, hword⟩ := hwords word List.mem_cons_self
      have hlast : wordsIn (word ++ []) = word :: wordsIn [] := wordsIn_append hne hword (by simp)
      simpa [wordsIn_nil] using hlast
  | @cons word gap next text more hgap hseparators _ ih =>
      obtain ⟨⟨hne, hword⟩, hmore⟩ := List.forall_mem_cons.mp hwords
      obtain ⟨c, gap, rfl⟩ := List.exists_cons_of_ne_nil hgap
      have hc : ∀ d ∈ (c :: gap ++ text).head?, isSeparator d = true := by
        simpa using hseparators c List.mem_cons_self
      rw [wordsIn_append hne hword hc, wordsIn_gap hseparators, ih hmore]

/-- Words with blanks between are the words of their text. -/
theorem wordsIn_intercalate {words : List (List Char)}
    (h : ∀ word ∈ words, word ≠ [] ∧ ∀ c ∈ word, isSeparator c = false) :
    wordsIn ([' '].intercalate words) = words :=
  wordsIn_of_joined (joined_intercalate (by simp) (by simp [isSeparator]) words) h

theorem isWord_of_denotes {words : List (List Char)} {instructions : List (Instruction Unit)}
    (h : List.Forall₂ Denotes words instructions) :
    ∀ word ∈ words, word ≠ [] ∧ ∀ c ∈ word, isSeparator c = false := by
  induction h with
  | nil => exact List.forall_mem_nil _
  | cons hword _ ih => exact List.forall_mem_cons.mpr ⟨hword.isWord, ih⟩

theorem unknownWords_of_denotes {read : List (Located (List Char))}
    {instructions : List (Instruction Unit)}
    (h : List.Forall₂ Denotes (read.map (·.value)) instructions) : unknownWords read = [] := by
  induction read generalizing instructions with
  | nil => rfl
  | cons word rest ih =>
      cases h with
      | cons hword hrest =>
          rw [unknownWords, List.filterMap_cons, ofWord?_eq_some_iff.mpr hword]
          exact ih hrest

/-- A text is read if each of its words stands for something. -/
theorem exists_readWords_of_denotes {text : List Char} {instructions : List (Instruction Unit)}
    (h : List.Forall₂ Denotes (wordsIn text) instructions) :
    ∃ located, readWords text = .ok located ∧ located.map (·.value) = instructions := by
  have hread : ∃ located, readWords text = .ok located := by
    rw [← map_value_words 1 0 text] at h
    rw [readWords, unknownWords_of_denotes h]
    exact ⟨_, rfl⟩
  obtain ⟨located, hlocated⟩ := hread
  have hdenotes := forall₂_denotes_of_readWords hlocated
  exact ⟨located, hlocated, List.right_unique_forall₂' denotes_rightUnique hdenotes h⟩

/-! ## Numbers -/

theorem digitsValue_toString (value : Nat) : digitsValue (toString value).toList = value := by
  have hread := Assembly.readNat?_toString value
  rw [Assembly.readNat?, Option.ite_none_right_eq_some] at hread
  exact Option.some.inj hread.2

/-- A number that fits into a cell with a sign is spelled by its digits. -/
theorem spells_toString {value : Int} (hleast : -0x8000000000000000 ≤ value)
    (hgreatest : value < 0x8000000000000000) :
    Spells (toString value).toList (BitVec.ofInt 64 value) := by
  have hdigits : (toString value.natAbs).toList.all Char.isDigit :=
    List.all_eq_true.mpr fun c => Assembly.isDigit_of_mem_toString
  have hne : (toString value.natAbs).toList ≠ [] := by
    rw [Assembly.toList_toString_nat]
    exact Nat.toDigits_ne_nil
  rw [Assembly.toList_toString_int]
  split
  next hneg =>
    have hspells := Spells.negative hne hdigits (by rw [digitsValue_toString]; omega)
    rwa [digitsValue_toString, Int.ofNat_natAbs_of_nonpos (Int.le_of_lt hneg),
      Int.neg_neg] at hspells
  next hnonneg =>
    have hspells := Spells.natural hne hdigits (by rw [digitsValue_toString]; omega)
    rwa [digitsValue_toString, Int.natAbs_of_nonneg (Int.not_lt.mp hnonneg)] at hspells

end Stacklet
