import Stacklet.Proofs.Word.Spelling

/-! # Instructions are read back

What is written for instructions, with separators between, is read as the same instructions, their
targets apart. Only numbers have more than one spelling: a sign that is not needed and zeros in
front. A number may also be read digit by digit, with a check at every step that the result so far
fits into a cell: that comes to the same, as numbers that do not fit do not shrink again.
-/

namespace Stacklet

/-! ## Numbers -/

/-- The number that a word is in decimal notation, perhaps with a sign. -/
inductive IsNumeral : List Char → Int → Prop
  | natural {digits : List Char} (hne : digits ≠ []) (hdigits : ∀ c ∈ digits, c.isDigit = true) :
      IsNumeral digits (Nat.ofDigitChars 10 digits 0)
  | positive {digits : List Char} (hne : digits ≠ []) (hdigits : ∀ c ∈ digits, c.isDigit = true) :
      IsNumeral ('+' :: digits) (Nat.ofDigitChars 10 digits 0)
  | negative {digits : List Char} (hne : digits ≠ []) (hdigits : ∀ c ∈ digits, c.isDigit = true) :
      IsNumeral ('-' :: digits) (-Nat.ofDigitChars 10 digits 0)

/-- Numbers that fit into a cell with a sign. -/
def Fits (value : Int) : Prop :=
  -0x8000000000000000 ≤ value ∧ value < 0x8000000000000000

instance (value : Int) : Decidable (Fits value) :=
  inferInstanceAs (Decidable (_ ∧ _))

theorem fits_toInt (cell : Cell) : Fits cell.toInt :=
  ⟨BitVec.le_toInt cell, BitVec.toInt_lt⟩

theorem toInt_ofInt_of_fits {value : Int} (h : Fits value) :
    (BitVec.ofInt 64 value).toInt = value :=
  BitVec.toInt_ofInt_eq_self (by decide) h.1 h.2

theorem ofDigitChars_eq_digitsValue (digits : List Char) :
    Nat.ofDigitChars 10 digits 0 = digitsValue digits :=
  Nat.ofDigitChars_eq_foldl

/-- A word spells a cell if it is the number of the cell. -/
theorem spells_iff {word : List Char} {cell : Cell} :
    Spells word cell ↔ IsNumeral word cell.toInt := by
  constructor
  · intro h
    cases h with
    | natural hne hdigits hbound =>
        rw [toInt_ofInt_of_fits ⟨by omega, by omega⟩, ← ofDigitChars_eq_digitsValue]
        exact .natural hne (List.all_eq_true.mp hdigits)
    | positive hne hdigits hbound =>
        rw [toInt_ofInt_of_fits ⟨by omega, by omega⟩, ← ofDigitChars_eq_digitsValue]
        exact .positive hne (List.all_eq_true.mp hdigits)
    | negative hne hdigits hbound =>
        rw [toInt_ofInt_of_fits ⟨by omega, by omega⟩, ← ofDigitChars_eq_digitsValue]
        exact .negative hne (List.all_eq_true.mp hdigits)
  · intro h
    have hcell : cell = BitVec.ofInt 64 cell.toInt := BitVec.ofInt_toInt.symm
    have hfits := fits_toInt cell
    unfold Fits at hfits
    generalize cell.toInt = value at h hcell hfits
    subst hcell
    cases h with
    | natural hne hdigits =>
        rw [ofDigitChars_eq_digitsValue] at hfits ⊢
        exact .natural hne (List.all_eq_true.mpr hdigits) (by omega)
    | positive hne hdigits =>
        rw [ofDigitChars_eq_digitsValue] at hfits ⊢
        exact .positive hne (List.all_eq_true.mpr hdigits) (by omega)
    | negative hne hdigits =>
        rw [ofDigitChars_eq_digitsValue] at hfits ⊢
        exact .negative hne (List.all_eq_true.mpr hdigits) (by omega)

theorem denotes_push_iff {word : List Char} {cell : Cell} :
    Denotes word (.push cell) ↔ Spells word cell := by
  constructor
  · intro h
    cases h with
    | number h => exact h
  · exact .number

/-- A word pushes a number if it is that number and the number fits. -/
theorem exists_ofWord?_push_iff {word : List Char} {value : Int} :
    (∃ cell, cell.toInt = value ∧ Instruction.ofWord? word = some (.push cell)) ↔
      IsNumeral word value ∧ Fits value := by
  constructor
  · intro ⟨cell, hvalue, hread⟩
    subst hvalue
    exact ⟨spells_iff.mp (denotes_push_iff.mp (ofWord?_eq_some_iff.mp hread)), fits_toInt cell⟩
  · intro ⟨hnumeral, hfits⟩
    have hvalue := toInt_ofInt_of_fits hfits
    refine ⟨BitVec.ofInt 64 value, hvalue, ?_⟩
    apply ofWord?_eq_some_iff.mpr
    apply denotes_push_iff.mpr
    apply spells_iff.mpr
    rwa [hvalue]

/-! ## Reading digit by digit -/

namespace Checked

/-- A number, if it fits into a cell with a sign. -/
def fit? (value : Int) : Option Int :=
  if Fits value then some value else none

/-- Goes on reading a number behind some digits. The next digit counts `unit`, which is one, or
minus one behind a minus sign. -/
def readDigits? (unit : Int) (value : Int) : List Char → Option Int
  | [] => some value
  | c :: digits =>
    if c.isDigit then do
      let scaled ← fit? (10 * value)
      let next ← fit? (scaled + unit * (c.toNat - '0'.toNat : Nat))
      readDigits? unit next digits
    else none

/-- The number that digits spell, each counting `unit`. -/
def readUnits? (unit : Int) (digits : List Char) : Option Cell :=
  if digits = [] then none else (readDigits? unit 0 digits).map (BitVec.ofInt 64)

/-- The number that a word with an optional sign spells. -/
def readCell? : List Char → Option Cell
  | '+' :: digits => readUnits? 1 digits
  | '-' :: digits => readUnits? (-1) digits
  | digits => readUnits? 1 digits

theorem le_ofDigitChars (digits : List Char) (value : Nat) :
    value ≤ Nat.ofDigitChars 10 digits value := by
  induction digits generalizing value with
  | nil => exact Nat.le_refl value
  | cons c digits ih =>
      rw [Nat.ofDigitChars_cons]
      have hnext := ih (10 * value + (c.toNat - '0'.toNat))
      omega

theorem fit?_of_fits {value : Int} (h : Fits value) : fit? value = some value :=
  if_pos h

theorem fit?_of_not_fits {value : Int} (h : ¬ Fits value) : fit? value = none :=
  if_neg h

/-- Numbers of the same sign fit if a greater one does. -/
theorem fits_of_le {unit : Int} (hunit : unit = 1 ∨ unit = -1) {value greater : Nat}
    (hle : value ≤ greater) (h : Fits (unit * greater)) : Fits (unit * value) := by
  unfold Fits at *
  rcases hunit with rfl | rfl <;> omega

/-- What does not fit on the way does not fit in the end. -/
theorem readDigits?_eq {unit : Int} (hunit : unit = 1 ∨ unit = -1) {value : Nat}
    (hfits : Fits (unit * value)) (digits : List Char) :
    readDigits? unit (unit * value) digits =
      if digits.all Char.isDigit then fit? (unit * Nat.ofDigitChars 10 digits value) else none := by
  induction digits generalizing value with
  | nil => simp [readDigits?, fit?, hfits]
  | cons c digits ih =>
      rw [readDigits?, Nat.ofDigitChars_cons, List.all_cons]
      generalize c.toNat - '0'.toNat = digit
      by_cases hdigit : c.isDigit = true
      · have hlast := le_ofDigitChars digits (10 * value + digit)
        have hscale : 10 * (unit * value) = unit * (10 * value : Nat) :=
          Int.mul_left_comm 10 unit value
        have hadd : unit * (10 * value : Nat) + unit * digit = unit * (10 * value + digit : Nat) :=
          (Int.mul_add unit (10 * value : Nat) digit).symm
        rw [if_pos hdigit, hscale]
        by_cases hnext : Fits (unit * (10 * value + digit : Nat))
        · have hscaled : Fits (unit * (10 * value : Nat)) := fits_of_le hunit (by omega) hnext
          simp only [fit?_of_fits hscaled, hadd, fit?_of_fits hnext, Option.bind_eq_bind,
            Option.bind_some, ih hnext, hdigit, Bool.true_and]
        · have hnever : ¬ Fits (unit * Nat.ofDigitChars 10 digits (10 * value + digit)) := by
            intro hfits
            exact hnext (fits_of_le hunit hlast hfits)
          by_cases hscaled : Fits (unit * (10 * value : Nat))
          · simp only [fit?_of_fits hscaled, hadd, fit?_of_not_fits hnext, Option.bind_eq_bind,
              Option.bind_some, Option.bind_none, fit?_of_not_fits hnever, ite_self]
          · simp only [fit?_of_not_fits hscaled, Option.bind_eq_bind, Option.bind_none,
              fit?_of_not_fits hnever, ite_self]
      · simp only [hdigit, Bool.false_and, Bool.false_eq_true, if_false]

theorem readUnits?_eq_some_iff {unit : Int} (hunit : unit = 1 ∨ unit = -1) {digits : List Char}
    {cell : Cell} : readUnits? unit digits = some cell ↔
      digits ≠ [] ∧ (∀ c ∈ digits, c.isDigit = true) ∧
        unit * Nat.ofDigitChars 10 digits 0 = cell.toInt := by
  have hread := @readDigits?_eq unit hunit 0 (by simp [Fits]) digits
  rw [Int.natCast_zero, Int.mul_zero] at hread
  rw [readUnits?, hread]
  generalize unit * (Nat.ofDigitChars 10 digits 0 : Int) = value
  have hfit : (fit? value).map (BitVec.ofInt 64) = some cell ↔ value = cell.toInt := by
    constructor
    · intro h
      by_cases hfits : Fits value
      · rw [fit?_of_fits hfits] at h
        cases h
        exact (toInt_ofInt_of_fits hfits).symm
      · rw [fit?_of_not_fits hfits] at h
        cases h
    · rintro rfl
      rw [fit?_of_fits (fits_toInt cell), Option.map_some, BitVec.ofInt_toInt]
  by_cases hnil : digits = []
  · simp [hnil]
  · rw [if_neg hnil, ← List.all_eq_true]
    by_cases hall : digits.all Char.isDigit = true
    · rw [if_pos hall, hfit]
      simp only [ne_eq, hnil, not_false_eq_true, hall, true_and]
    · rw [if_neg hall]
      simp only [Option.map_none, reduceCtorEq, hall, false_and, and_false]

theorem readCell?_eq_some_iff {word : List Char} {cell : Cell} :
    readCell? word = some cell ↔ IsNumeral word cell.toInt := by
  constructor
  · intro h
    unfold readCell? at h
    split at h
    next digits =>
      obtain ⟨hne, hdigits, hvalue⟩ := (readUnits?_eq_some_iff (.inl rfl)).mp h
      rw [← hvalue, Int.one_mul]
      exact .positive hne hdigits
    next digits =>
      obtain ⟨hne, hdigits, hvalue⟩ := (readUnits?_eq_some_iff (.inr rfl)).mp h
      rw [← hvalue, Int.neg_one_mul]
      exact .negative hne hdigits
    next =>
      obtain ⟨hne, hdigits, hvalue⟩ := (readUnits?_eq_some_iff (.inl rfl)).mp h
      rw [← hvalue, Int.one_mul]
      exact .natural hne hdigits
  · intro h
    generalize hvalue : cell.toInt = value at h
    cases h with
    | natural hne hdigits =>
        -- A digit is no sign.
        have hunsigned : readCell? word = readUnits? 1 word := by
          unfold readCell?
          split
          next => simp at hdigits
          next => simp at hdigits
          next => rfl
        rw [hunsigned, readUnits?_eq_some_iff (.inl rfl), Int.one_mul]
        exact ⟨hne, hdigits, hvalue.symm⟩
    | positive hne hdigits =>
        rw [readCell?, readUnits?_eq_some_iff (.inl rfl), Int.one_mul]
        exact ⟨hne, hdigits, hvalue.symm⟩
    | negative hne hdigits =>
        rw [readCell?, readUnits?_eq_some_iff (.inr rfl), Int.neg_one_mul]
        exact ⟨hne, hdigits, hvalue.symm⟩

/-- Checking at every step comes to checking once. -/
theorem readCell?_eq (word : List Char) : readCell? word = Stacklet.readCell? word := by
  apply Option.ext
  intro cell
  rw [readCell?_eq_some_iff, ← spells_iff, ← Stacklet.readCell?_eq_some_iff]

end Checked

/-! ## Instructions -/

/-- What is written for an instruction stands for it. -/
theorem denotes_text {τ : Type} (instruction : Instruction τ) :
    Denotes instruction.text.toList instruction.word := by
  cases instruction with
  | push cell =>
      apply Denotes.number
      have hspells := spells_toString (fits_toInt cell).1 (fits_toInt cell).2
      rwa [BitVec.ofInt_toInt] at hspells
  | plus => simpa [Instruction.text, Instruction.word, Instruction.map] using Denotes.plus
  | minus => simpa [Instruction.text, Instruction.word, Instruction.map] using Denotes.minus
  | equal => simpa [Instruction.text, Instruction.word, Instruction.map] using Denotes.equal
  | dump => simpa [Instruction.text, Instruction.word, Instruction.map] using Denotes.dot
  | cond target => simpa [Instruction.text, Instruction.word, Instruction.map] using Denotes.cond
  | alt target => simpa [Instruction.text, Instruction.word, Instruction.map] using Denotes.alt
  | close => simpa [Instruction.text, Instruction.word, Instruction.map] using Denotes.close

theorem exists_readWords_of_joined {τ : Type} {instructions : List (Instruction τ)}
    {text : List Char} (h : Joined (instructions.map (·.text.toList)) text) :
    ∃ read, readWords text = .ok read ∧ read.map (·.value) = instructions.map Instruction.word := by
  have hdenotes : List.Forall₂ Denotes (instructions.map (·.text.toList))
      (instructions.map Instruction.word) := by
    rw [List.forall₂_map_left_iff, List.forall₂_map_right_iff, List.forall₂_same]
    intro instruction _
    exact denotes_text instruction
  have hwords := wordsIn_of_joined h (isWord_of_denotes hdenotes)
  rw [← hwords] at hdenotes
  exact exists_readWords_of_denotes hdenotes

/-- Instructions that are written with separators between, as they are in notes with commas and
blanks, are read as the same instructions without targets. Conversely, a word pushes a number just
if it is that number in decimal notation and the number fits, whether that is checked at every digit
or once. -/
theorem readWords_of_joined_text {τ : Type} (instructions : List (Instruction τ))
    {text : List Char} (h : Joined (instructions.map (·.text.toList)) text) (word : List Char)
    (value : Int) :
    (∃ read, readWords text = .ok read ∧
      read.map (·.value) = instructions.map Instruction.word) ∧
    (∃ read, readWords (String.intercalate ", " (instructions.map (·.text))).toList = .ok read ∧
      read.map (·.value) = instructions.map Instruction.word) ∧
    ((∃ cell, cell.toInt = value ∧ Instruction.ofWord? word = some (.push cell)) ↔
      IsNumeral word value ∧ Fits value) ∧
    Checked.readCell? word = readCell? word := by
  have hnoted : Joined (instructions.map (·.text.toList))
      (String.intercalate ", " (instructions.map (·.text))).toList := by
    have hjoined := @joined_intercalate [',', ' '] (by simp) (by simp [isSeparator])
      (instructions.map (·.text.toList))
    rwa [String.toList_intercalate, List.map_map]
  exact ⟨exists_readWords_of_joined h, exists_readWords_of_joined hnoted,
    exists_ofWord?_push_iff, Checked.readCell?_eq word⟩

/-- The least and the greatest number of a cell, and signs that are instructions. -/
theorem readWords_of_joined_text_extremes :
    let instructions : List (Instruction Nat) :=
      [.push (.intMin 64), .minus, .push (.intMax 64), .cond 9]
    let text := "-9223372036854775808,-!\r\n9223372036854775807'if".toList
    Joined (instructions.map (·.text.toList)) text ∧
      (∃ read, readWords text = .ok read ∧
        read.map (·.value) = [.push (.intMin 64), .minus, .push (.intMax 64), .cond ()]) ∧
      IsNumeral "-0000009223372036854775808".toList (-0x8000000000000000) ∧
      ∃ cell, BitVec.toInt cell = -0x8000000000000000 ∧
        Instruction.ofWord? "-0000009223372036854775808".toList = some (.push cell) := by
  intro instructions text
  have hjoined : Joined (instructions.map (·.text.toList)) text := by
    have hrest : text = "-9223372036854775808".toList ++ ([','] ++ ("-".toList ++
        (['!', '\r', '\n'] ++ ("9223372036854775807".toList ++ (['\''] ++ "if".toList))))) := by
      decide +kernel
    rw [hrest]
    exact .cons (by simp) (by simp [isSeparator]) (.cons (by simp) (by simp [isSeparator])
      (.cons (by simp) (by simp [isSeparator]) (.single _)))
  have hnumeral : IsNumeral "-0000009223372036854775808".toList (-0x8000000000000000) := by
    have hdigits : "0000009223372036854775808".toList.all Char.isDigit = true := by decide
    exact .negative (by simp) (List.all_eq_true.mp hdigits)
  obtain ⟨hread, -, hpush, -⟩ := readWords_of_joined_text instructions hjoined
    "-0000009223372036854775808".toList (-0x8000000000000000)
  exact ⟨hjoined, hread, hnumeral, hpush.mpr ⟨hnumeral, by decide⟩⟩

end Stacklet
