import Stacklet.Proofs.Token.Lexemes
import Stacklet.Text.Quoted

/-! # What escapes denote

The content of a string literal is a sequence of units, each of which writes one character: the
character itself, or a backslash and what follows it. Content is read if and only if it consists of
units. If it does not, units stand in front up to a backslash that begins none, and that place alone
decides about the error.
-/

namespace Stacklet

namespace Escape

/-- A hexadecimal digit in either case, and its value. -/
def IsHexDigit (c : Char) (value : Nat) : Prop :=
  value < 16 ∧ (c = value.digitChar ∨ c = value.digitChar.toUpper)

/-- A number in hexadecimal notation, and its value. -/
inductive HexValue : List Char → Nat → Prop
  | nil : HexValue [] 0
  | concat {digits : List Char} {c : Char} {value digit : Nat} (hdigits : HexValue digits value)
      (hdigit : IsHexDigit c digit) : HexValue (digits ++ [c]) (16 * value + digit)

/-- The letters that stand for control characters, and these. -/
def controls : List (Char × Char) :=
  [('n', '\n'), ('t', '\t'), ('r', '\r'), ('0', '\x00'), ('a', '\x07'), ('f', '\x0c'),
    ('v', '\x0b'), ('e', '\x1b')]

/-- The four ranges of ASCII punctuation. -/
def punctuationRanges : List Text.CodeRange :=
  [(0x21, 0x2f), (0x3a, 0x40), (0x5b, 0x60), (0x7b, 0x7e)]

/-- A unit of a string literal's content, and the character that it writes. -/
inductive Writes : List Char → Char → Prop
  | plain {c : Char} (h : c ≠ '\\') : Writes [c] c
  | control {letter c : Char} (h : (letter, c) ∈ controls) : Writes ['\\', letter] c
  | two {digits : List Char} {c : Char} (hlength : digits.length = 2)
      (hvalue : HexValue digits c.toNat) : Writes ('\\' :: 'x' :: digits) c
  | four {digits : List Char} {c : Char} (hlength : digits.length = 4)
      (hvalue : HexValue digits c.toNat) : Writes ('\\' :: 'u' :: digits) c
  | braced {digits : List Char} {c : Char} (hlength : 1 ≤ digits.length ∧ digits.length ≤ 6)
      (hvalue : HexValue digits c.toNat) :
      Writes ('\\' :: 'u' :: '\x7b' :: (digits ++ ['\x7d'])) c
  | punctuation {c : Char} (h : Text.inRanges punctuationRanges c = true) : Writes ['\\', c] c

/-- Content that consists of units, and the text that they write. -/
inductive WritesAll : List Char → List Char → Prop
  | nil : WritesAll [] []
  | cons {unit content text : List Char} {c : Char} (hunit : Writes unit c)
      (hcontent : WritesAll content text) : WritesAll (unit ++ content) (c :: text)

/-- Content that begins with a backslash but not with a unit, and the error that this is. What an
error tells ends where reading ends: behind the digits, as far as there are any characters, or with
a closing brace or the content. -/
inductive Malformed : List Char → LexError → Prop
  | dangling : Malformed ['\\'] .danglingEscape
  | two {digits behind : List Char}
      (hlength : digits.length = 2 ∨ digits.length < 2 ∧ behind = [])
      (hunit : ∀ c, ¬ Writes ('\\' :: 'x' :: digits) c) :
      Malformed ('\\' :: 'x' :: (digits ++ behind)) (.badCharEscape (String.ofList ('x' :: digits)))
  | four {digits behind : List Char} (hbrace : digits.head? ≠ some '\x7b')
      (hlength : digits.length = 4 ∨ digits.length < 4 ∧ behind = [])
      (hunit : ∀ c, ¬ Writes ('\\' :: 'u' :: digits) c) :
      Malformed ('\\' :: 'u' :: (digits ++ behind)) (.badCharEscape (String.ofList ('u' :: digits)))
  | braced {digits behind : List Char} (hdigits : ∀ c ∈ digits, c ≠ '\x7d')
      (hunit : ∀ c, ¬ Writes ('\\' :: 'u' :: '\x7b' :: (digits ++ ['\x7d'])) c) :
      Malformed ('\\' :: 'u' :: '\x7b' :: (digits ++ '\x7d' :: behind))
        (.badCharEscape (String.ofList ('u' :: '\x7b' :: (digits ++ ['\x7d']))))
  | unclosed {digits : List Char} (hdigits : ∀ c ∈ digits, c ≠ '\x7d') :
      Malformed ('\\' :: 'u' :: '\x7b' :: digits)
        (.badCharEscape (String.ofList ('u' :: '\x7b' :: digits)))
  | unknown {c : Char} {behind : List Char} (hnumbered : c ≠ 'x' ∧ c ≠ 'u')
      (hunit : ∀ d, ¬ Writes ['\\', c] d) : Malformed ('\\' :: c :: behind) (.badEscape c)

/-! ## Characters and numbers -/

/-- What is checked for every ASCII character is true of those. -/
theorem forall_ascii {p : Char → Prop} (h : ∀ code < 128, p (Char.ofNat code)) {c : Char}
    (hc : c.toNat < 128) : p c := by
  simpa using h c.toNat hc

theorem control?_eq_some_iff {letter c : Char} :
    control? letter = some c ↔ (letter, c) ∈ controls := by
  constructor
  · intro h
    unfold control? at h
    split at h <;> cases h <;> decide
  · intro h
    simp only [controls, List.mem_cons, Prod.mk.injEq, List.not_mem_nil, or_false] at h
    rcases h with h | h | h | h | h | h | h | h <;> obtain ⟨rfl, rfl⟩ := h <;> rfl

theorem control?_eq_none {letter : Char} (h : ∀ c, (letter, c) ∉ controls) :
    control? letter = none := by
  apply Option.eq_none_iff_forall_ne_some.mpr
  intro c hc
  exact h c (control?_eq_some_iff.mp hc)

theorem toNat_lt_of_le {c : Char} (h : c ≤ '~') : c.toNat < 128 :=
  Nat.lt_of_le_of_lt (UInt32.le_iff_toNat_le.mp h) (by decide)

theorem isPunctuation_iff {c : Char} :
    isPunctuation c = true ↔ Text.inRanges punctuationRanges c = true := by
  have hascii : c.toNat < 128 →
      (isPunctuation c = true ↔ Text.inRanges punctuationRanges c = true) :=
    forall_ascii (p := fun c => isPunctuation c = true ↔ Text.inRanges punctuationRanges c = true)
      (by decide +kernel)
  constructor
  · intro h
    have hle : c ≤ '~' := by
      simp only [isPunctuation, Bool.and_eq_true, decide_eq_true_eq] at h
      exact h.1.2
    exact (hascii (toNat_lt_of_le hle)).mp h
  · intro h
    have hlt : c.toNat < 128 := by
      simp [Text.inRanges, punctuationRanges] at h
      omega
    exact (hascii hlt).mpr h

theorem hexDigit?_digitChar : ∀ value < 16, hexDigit? value.digitChar = some value ∧
    hexDigit? value.digitChar.toUpper = some value := by
  decide

theorem hexDigit?_eq_some_iff {c : Char} {value : Nat} :
    hexDigit? c = some value ↔ IsHexDigit c value := by
  constructor
  · intro h
    have hle : c ≤ '~' := by
      have hgreatest : c ≤ '9' ∨ c ≤ 'f' ∨ c ≤ 'F' := by grind [hexDigit?]
      rcases hgreatest with hc | hc | hc <;> exact Char.le_trans hc (by decide)
    have hascii : ∀ value ∈ hexDigit? c, IsHexDigit c value :=
      forall_ascii (p := fun c => ∀ value ∈ hexDigit? c, IsHexDigit c value)
        (by unfold IsHexDigit; decide +kernel) (toNat_lt_of_le hle)
    exact hascii value h
  · rintro ⟨hvalue, rfl | rfl⟩
    · exact (hexDigit?_digitChar value hvalue).1
    · exact (hexDigit?_digitChar value hvalue).2

theorem hexValue?_concat (digits : List Char) (c : Char) :
    hexValue? (digits ++ [c]) =
      (hexValue? digits).bind fun value => (hexDigit? c).map (16 * value + ·) := by
  simp [hexValue?, List.foldlM_append]

theorem hexValue?_eq_some_iff {digits : List Char} {value : Nat} :
    hexValue? digits = some value ↔ HexValue digits value := by
  constructor
  · intro h
    induction digits using List.reverseRecOn generalizing value with
    | nil =>
        cases h
        exact .nil
    | append_singleton digits c ih =>
        rw [hexValue?_concat] at h
        obtain ⟨front, hfront, h⟩ := Option.bind_eq_some_iff.mp h
        obtain ⟨digit, hdigit, rfl⟩ := Option.map_eq_some_iff.mp h
        exact .concat (ih hfront) (hexDigit?_eq_some_iff.mp hdigit)
  · intro h
    induction h with
    | nil => rfl
    | concat hdigits hdigit ih =>
        rw [hexValue?_concat, ih, Option.bind_some, hexDigit?_eq_some_iff.mpr hdigit,
          Option.map_some]

theorem codePoint?_eq_some_iff {digits : List Char} {c : Char} :
    codePoint? digits = some c ↔ HexValue digits c.toNat := by
  rw [← hexValue?_eq_some_iff, codePoint?, Option.bind_eq_some_iff]
  constructor
  · intro ⟨value, hvalue, h⟩
    rw [Option.ite_none_right_eq_some] at h
    obtain ⟨hvalid, hc⟩ := h
    cases hc
    rw [hvalue, Char.ofNat, dif_pos hvalid]
    rfl
  · intro h
    have hvalid : c.toNat.isValidChar := c.valid
    exact ⟨c.toNat, h, by rw [if_pos hvalid, Char.ofNat_toNat]⟩

/-- Digits are refused if their number is wrong or they are no code point. -/
theorem codePoint?_refused {digits : List Char} {allowed : Prop} [Decidable allowed]
    (h : ∀ c : Char, allowed → ¬ HexValue digits c.toNat) :
    (if allowed then codePoint? digits else none) = none := by
  rw [ite_eq_right_iff]
  intro hallowed
  apply Option.eq_none_iff_forall_ne_some.mpr
  intro c hc
  exact h c hallowed (codePoint?_eq_some_iff.mp hc)

theorem isAlphanum_of_isHexDigit {c : Char} {value : Nat} (h : IsHexDigit c value) :
    c.isAlphanum = true := by
  have hall : ∀ value < 16, value.digitChar.isAlphanum = true ∧
      value.digitChar.toUpper.isAlphanum = true := by
    decide
  obtain ⟨hvalue, rfl | rfl⟩ := h
  · exact (hall value hvalue).1
  · exact (hall value hvalue).2

/-- Hexadecimal notation holds letters and digits only. -/
theorem isAlphanum_of_hexValue {digits : List Char} {value : Nat} (h : HexValue digits value) :
    ∀ c ∈ digits, c.isAlphanum = true := by
  induction h with
  | nil => exact List.forall_mem_nil _
  | concat _ hdigit ih =>
      rw [List.forall_mem_append]
      exact ⟨ih, List.forall_mem_singleton.mpr (isAlphanum_of_isHexDigit hdigit)⟩

theorem ne_of_hexValue {digits : List Char} {value : Nat} (h : HexValue digits value) {mark : Char}
    (hmark : mark.isAlphanum = false) : ∀ c ∈ digits, c ≠ mark := by
  rintro c hc rfl
  simp [isAlphanum_of_hexValue h c hc] at hmark

/-! ## Reading units -/

/-- The characters that are read where there should be some number of digits. -/
theorem exists_digits (count : Nat) (text : List Char) :
    ∃ digits behind, text = digits ++ behind ∧
      (digits.length = count ∨ digits.length < count ∧ behind = []) := by
  refine ⟨text.take count, text.drop count, (List.take_append_drop count text).symm, ?_⟩
  by_cases h : count ≤ text.length
  · left
    simp [h]
  · right
    simp only [List.length_take, List.drop_eq_nil_iff]
    omega

section Read

variable {mark c : Char} {count : Nat} {digits behind : List Char}

theorem readDigits_of_hexValue (hlength : digits.length = count)
    (hvalue : HexValue digits c.toNat) :
    readDigits mark count (digits ++ behind) = .ok (c, behind) := by
  have hcode := codePoint?_eq_some_iff.mpr hvalue
  subst hlength
  simp [readDigits, hcode]

theorem readDigits_of_not_hexValue
    (hlength : digits.length = count ∨ digits.length < count ∧ behind = [])
    (hnot : ∀ c : Char, digits.length = count → ¬ HexValue digits c.toNat) :
    readDigits mark count (digits ++ behind) = .error (.badCodePoint (mark :: digits)) := by
  have htake : (digits ++ behind).take count = digits := by
    rcases hlength with rfl | ⟨hlength, rfl⟩
    · simp
    · simp [Nat.le_of_lt hlength]
  simp [readDigits, htake, codePoint?_refused hnot]

theorem split_closed (hdigits : ∀ c ∈ digits, c ≠ '\x7d') :
    (digits ++ '\x7d' :: behind).takeWhile (· ≠ '\x7d') = digits ∧
      (digits ++ '\x7d' :: behind).dropWhile (· ≠ '\x7d') = '\x7d' :: behind := by
  have hrun : ∀ c ∈ digits, decide (c ≠ '\x7d') = true := by simpa using hdigits
  have hclose : ∀ c ∈ ('\x7d' :: behind).head?, decide (c ≠ '\x7d') = false := by simp
  exact ⟨Cut.takeWhile_run hrun hclose, Cut.dropWhile_run hrun hclose⟩

theorem readBraced_of_hexValue (hlength : 1 ≤ digits.length ∧ digits.length ≤ 6)
    (hvalue : HexValue digits c.toNat) :
    readBraced (digits ++ '\x7d' :: behind) = .ok (c, behind) := by
  have hcode := codePoint?_eq_some_iff.mpr hvalue
  obtain ⟨htake, hdrop⟩ := @split_closed digits behind (ne_of_hexValue hvalue (by decide))
  simp only [readBraced, htake, hdrop, if_pos hlength, hcode]

theorem readBraced_of_not_hexValue (hdigits : ∀ c ∈ digits, c ≠ '\x7d')
    (hnot : ∀ c : Char, 1 ≤ digits.length ∧ digits.length ≤ 6 → ¬ HexValue digits c.toNat) :
    readBraced (digits ++ '\x7d' :: behind) =
      .error (.badCodePoint ('u' :: '\x7b' :: (digits ++ ['\x7d']))) := by
  obtain ⟨htake, hdrop⟩ := @split_closed digits behind hdigits
  simp only [readBraced, htake, hdrop, codePoint?_refused hnot, List.cons_append]

theorem readBraced_unclosed (hdigits : ∀ c ∈ digits, c ≠ '\x7d') :
    readBraced digits = .error (.badCodePoint ('u' :: '\x7b' :: digits)) := by
  have hrun : ∀ c ∈ digits, decide (c ≠ '\x7d') = true := by simpa using hdigits
  have hend : ∀ c ∈ ([] : List Char).head?, decide (c ≠ '\x7d') = false := by simp
  have htake := Cut.takeWhile_run hrun hend
  have hdrop := Cut.dropWhile_run hrun hend
  rw [List.append_nil] at htake hdrop
  simp only [readBraced, htake, hdrop]

theorem read_u (hbrace : behind.head? ≠ some '\x7b') :
    read ('u' :: behind) = readDigits 'u' 4 behind := by
  cases behind with
  | nil => rfl
  | cons d rest =>
      have hd : d ≠ '\x7b' := by simpa using hbrace
      unfold read
      split <;> grind

theorem read_other (hx : c ≠ 'x') (hu : c ≠ 'u') :
    read (c :: behind) = match control? c with
      | some control => .ok (control, behind)
      | none => if isPunctuation c then .ok (c, behind) else .error (.unknown c) := by
  unfold read
  split <;> grind

theorem isAlphanum_of_mem_controls {letter : Char} (h : (letter, c) ∈ controls) :
    letter.isAlphanum = true := by
  have hall : ∀ pair ∈ controls, pair.1.isAlphanum = true := by decide
  exact hall _ h

theorem read_control {letter : Char} (h : (letter, c) ∈ controls) :
    read (letter :: behind) = .ok (c, behind) := by
  have hnumbered : ∀ pair ∈ controls, pair.1 ≠ 'x' ∧ pair.1 ≠ 'u' := by decide
  obtain ⟨hx, hu⟩ := hnumbered _ h
  rw [read_other hx hu, control?_eq_some_iff.mpr h]

theorem read_punctuation (h : Text.inRanges punctuationRanges c = true) :
    read (c :: behind) = .ok (c, behind) := by
  have hpunctuation := isPunctuation_iff.mpr h
  have hnot : c.isAlphanum = false := by
    simp only [isPunctuation, Bool.and_eq_true, Bool.not_eq_true'] at hpunctuation
    exact hpunctuation.2
  have hne {letter : Char} (hletter : letter.isAlphanum = true) : c ≠ letter := by
    rintro rfl
    simp [hletter] at hnot
  have hcontrol : control? c = none := by
    apply control?_eq_none
    intro control hmem
    exact hne (isAlphanum_of_mem_controls hmem) rfl
  rw [read_other (hne rfl) (hne rfl), hcontrol]
  simp [hpunctuation]

end Read

/-- A unit behind its backslash is read as the character that it writes, whatever follows. -/
theorem read_of_writes {unit behind : List Char} {c : Char} (h : Writes ('\\' :: unit) c) :
    read (unit ++ behind) = .ok (c, behind) := by
  generalize hwhole : '\\' :: unit = whole at h
  cases h with
  | plain hne =>
      cases hwhole
      exact absurd rfl hne
  | control hmem =>
      cases hwhole
      exact read_control hmem
  | two hlength hvalue =>
      cases hwhole
      exact readDigits_of_hexValue hlength hvalue
  | @four digits _ hlength hvalue =>
      cases hwhole
      have hbrace : (digits ++ behind).head? ≠ some '\x7b' := by
        obtain ⟨d, more, rfl⟩ := List.exists_cons_of_length_eq_add_one hlength
        simpa using ne_of_hexValue hvalue (by decide) d List.mem_cons_self
      rw [List.cons_append, read_u hbrace, readDigits_of_hexValue hlength hvalue]
  | @braced digits _ hlength hvalue =>
      cases hwhole
      rw [List.cons_append, List.cons_append, List.append_assoc, List.singleton_append, read,
        readBraced_of_hexValue hlength hvalue]
  | punctuation hpunctuation =>
      cases hwhole
      exact read_punctuation hpunctuation

theorem read_of_malformed {rest : List Char} {error : LexError}
    (h : Malformed ('\\' :: rest) error) :
    ∃ cause, read rest = .error cause ∧ LexError.ofEscape cause = error := by
  cases h with
  | dangling => exact ⟨.dangling, rfl, rfl⟩
  | two hlength hunit =>
      refine ⟨_, readDigits_of_not_hexValue hlength ?_, rfl⟩
      intro c hall hvalue
      exact hunit c (.two hall hvalue)
  | @four digits behind hbrace hlength hunit =>
      have hhead : (digits ++ behind).head? ≠ some '\x7b' := by
        cases digits with
        | nil =>
            obtain ⟨-, rfl⟩ := hlength.resolve_left (by simp)
            simp
        | cons d more => simpa using hbrace
      rw [read_u hhead]
      refine ⟨_, readDigits_of_not_hexValue hlength ?_, rfl⟩
      intro c hall hvalue
      exact hunit c (.four hall hvalue)
  | @braced digits behind hdigits hunit =>
      refine ⟨_, readBraced_of_not_hexValue hdigits ?_, rfl⟩
      intro c hlength hvalue
      exact hunit c (.braced hlength hvalue)
  | unclosed hdigits =>
      rw [read, readBraced_unclosed hdigits]
      exact ⟨_, rfl, rfl⟩
  | @unknown c behind hnumbered hunit =>
      have hcontrol : control? c = none := by
        apply control?_eq_none
        intro control hmem
        exact hunit control (.control hmem)
      have hpunctuation : ¬ isPunctuation c = true := by
        intro h
        exact hunit c (.punctuation (isPunctuation_iff.mp h))
      rw [read_other hnumbered.1 hnumbered.2, hcontrol]
      exact ⟨.unknown c, if_neg hpunctuation, rfl⟩

/-- What follows a backslash makes a unit with it, or is malformed. -/
theorem writes_or_malformed (rest : List Char) :
    (∃ unit behind c, rest = unit ++ behind ∧ Writes ('\\' :: unit) c) ∨
      ∃ error, Malformed ('\\' :: rest) error := by
  -- It is enough to name a first part such that the rest is malformed if this part is no unit.
  have of_part {part behind : List Char} {error : LexError} (hrest : rest = part ++ behind)
      (hmalformed : (∀ c, ¬ Writes ('\\' :: part) c) → Malformed ('\\' :: rest) error) :
      (∃ unit behind c, rest = unit ++ behind ∧ Writes ('\\' :: unit) c) ∨
        ∃ error, Malformed ('\\' :: rest) error := by
    by_cases hunit : ∃ c, Writes ('\\' :: part) c
    · obtain ⟨c, hc⟩ := hunit
      exact .inl ⟨part, behind, c, hrest, hc⟩
    · exact .inr ⟨error, hmalformed (not_exists.mp hunit)⟩
  cases rest with
  | nil => exact .inr ⟨_, .dangling⟩
  | cons c rest =>
      by_cases hx : c = 'x'
      · subst hx
        obtain ⟨digits, behind, rfl, hlength⟩ := exists_digits 2 rest
        exact of_part rfl (.two hlength)
      by_cases hu : c = 'u'
      · subst hu
        by_cases hbrace : rest.head? = some '\x7b'
        · obtain ⟨rest, rfl⟩ := List.head?_eq_some_iff.mp hbrace
          obtain ⟨digits, behind, rfl, hdigits, hbehind⟩ := Cut.exists_run (· ≠ '\x7d') rest
          have hdigits : ∀ c ∈ digits, c ≠ '\x7d' := by simpa using hdigits
          cases behind with
          | nil =>
              rw [List.append_nil]
              exact .inr ⟨_, .unclosed hdigits⟩
          | cons d behind =>
              obtain rfl : d = '\x7d' := by simpa using hbehind
              apply @of_part ('u' :: '\x7b' :: (digits ++ ['\x7d'])) behind
              · simp
              · exact .braced hdigits
        · obtain ⟨digits, behind, rfl, hlength⟩ := exists_digits 4 rest
          have hhead : digits.head? ≠ some '\x7b' := by
            intro hdigits
            obtain ⟨more, rfl⟩ := List.head?_eq_some_iff.mp hdigits
            exact hbrace rfl
          exact of_part rfl (.four hhead hlength)
      · exact @of_part [c] rest _ rfl (.unknown ⟨hx, hu⟩)

/-! ## Reading content -/

theorem unescape_plain {c : Char} (h : c ≠ '\\') (content : List Char) :
    unescape (c :: content) = (unescape content).map (c :: ·) := by
  rw [unescape, if_neg h]

theorem unescape_of_read {rest behind : List Char} {c : Char} (h : read rest = .ok (c, behind)) :
    unescape ('\\' :: rest) = (unescape behind).map (c :: ·) := by
  rw [unescape, if_pos rfl]
  split
  next hread => cases hread.symm.trans h
  next hread =>
    cases hread.symm.trans h
    rfl

theorem unescape_of_read_error {rest : List Char} {cause : EscapeError}
    (h : read rest = .error cause) : unescape ('\\' :: rest) = .error cause := by
  rw [unescape, if_pos rfl]
  split
  next hread =>
    cases hread.symm.trans h
    rfl
  next hread => cases hread.symm.trans h

/-- A unit in front is read as its character. -/
theorem Writes.unescape_append {unit : List Char} {c : Char} (h : Writes unit c)
    (content : List Char) : unescape (unit ++ content) = (unescape content).map (c :: ·) := by
  cases unit with
  | nil => cases h
  | cons d tail =>
      by_cases hd : d = '\\'
      · subst hd
        exact unescape_of_read (read_of_writes h)
      · cases h with
        | plain => exact unescape_plain hd content
        | _ => exact absurd rfl hd

/-- Units in front are read as the text that they write. -/
theorem WritesAll.unescape_append {front text : List Char} (h : WritesAll front text)
    (content : List Char) : unescape (front ++ content) = (unescape content).map (text ++ ·) := by
  induction h with
  | nil => cases hcontent : unescape content <;> simp [hcontent, Except.map]
  | cons hunit _ ih =>
      rw [List.append_assoc, hunit.unescape_append, ih]
      cases unescape content <;> rfl

theorem Malformed.exists_unescape {content : List Char} {error : LexError}
    (h : Malformed content error) :
    ∃ cause, unescape content = .error cause ∧ LexError.ofEscape cause = error := by
  obtain ⟨rest, rfl⟩ : ∃ rest, content = '\\' :: rest := by
    cases h <;> exact ⟨_, rfl⟩
  obtain ⟨cause, hread, hcause⟩ := read_of_malformed h
  exact ⟨cause, unescape_of_read_error hread, hcause⟩

/-- Content is units up to its end, or up to something malformed. -/
theorem exists_units (content : List Char) :
    ∃ front rest text, content = front ++ rest ∧ WritesAll front text ∧
      (rest = [] ∨ ∃ error, Malformed rest error) := by
  induction hlength : content.length using Nat.strong_induction_on generalizing content with
  | _ length ih =>
      -- A unit in front leaves less content.
      have of_unit {unit behind : List Char} {c : Char} (hcontent : content = unit ++ behind)
          (hunit : Writes unit c) : ∃ front rest text, content = front ++ rest ∧
            WritesAll front text ∧ (rest = [] ∨ ∃ error, Malformed rest error) := by
        have hshorter : behind.length < length := by
          have hne : unit.length ≠ 0 := by cases hunit <;> simp
          rw [← hlength, hcontent, List.length_append]
          omega
        obtain ⟨front, rest, text, rfl, hfront, hrest⟩ := ih _ hshorter behind rfl
        refine ⟨unit ++ front, rest, c :: text, ?_, .cons hunit hfront, hrest⟩
        rw [hcontent, List.append_assoc]
      cases content with
      | nil => exact ⟨[], [], [], rfl, .nil, .inl rfl⟩
      | cons c rest =>
          by_cases hc : c = '\\'
          · subst hc
            rcases writes_or_malformed rest with ⟨unit, behind, c, rfl, hunit⟩ | hmalformed
            · exact of_unit (List.cons_append).symm hunit
            · exact ⟨[], _, [], rfl, .nil, .inr hmalformed⟩
          · exact @of_unit [c] rest c rfl (.plain hc)

theorem unescape_eq_ok_iff {content text : List Char} :
    unescape content = .ok text ↔ WritesAll content text := by
  constructor
  · intro h
    obtain ⟨front, rest, written, rfl, hfront, hrest⟩ := exists_units content
    rw [hfront.unescape_append] at h
    rcases hrest with rfl | ⟨error, hmalformed⟩
    · rw [unescape, Except.map, List.append_nil] at h
      cases h
      rwa [List.append_nil]
    · obtain ⟨cause, hcause, -⟩ := hmalformed.exists_unescape
      rw [hcause] at h
      cases h
  · intro h
    have hread := h.unescape_append []
    rwa [unescape, Except.map, List.append_nil, List.append_nil] at hread

/-- The error is that of the malformed content behind the units in front, whatever these are. -/
theorem unescape_eq_error_iff {content : List Char} {error : LexError} :
    (unescape content).mapError LexError.ofEscape = .error error ↔
      ∃ front rest text, content = front ++ rest ∧ WritesAll front text ∧ Malformed rest error := by
  have of_malformed {front rest text : List Char} {error : LexError} (hfront : WritesAll front text)
      (h : Malformed rest error) :
      (unescape (front ++ rest)).mapError LexError.ofEscape = .error error := by
    obtain ⟨cause, hcause, rfl⟩ := h.exists_unescape
    rw [hfront.unescape_append, hcause]
    rfl
  constructor
  · intro h
    obtain ⟨front, rest, text, rfl, hfront, hrest⟩ := exists_units content
    rcases hrest with rfl | ⟨other, hmalformed⟩
    · rw [List.append_nil, unescape_eq_ok_iff.mpr hfront] at h
      cases h
    · obtain rfl : other = error := by
        rw [of_malformed hfront hmalformed] at h
        exact Except.error.inj h
      exact ⟨front, rest, text, rfl, hfront, hmalformed⟩
  · rintro ⟨front, rest, text, rfl, hfront, hmalformed⟩
    exact of_malformed hfront hmalformed

/-! ## Literals -/

/-- A literal whose content writes a text is one token, and this holds the text. -/
theorem WritesAll.isOneToken {content text : List Char} (h : WritesAll content text) {quote : Char}
    (hquote : quote = '"' ∨ quote = '\'') (hcontent : ∀ c ∈ content, c ≠ quote) :
    IsOneToken (quote :: (content ++ [quote])) (.string (String.ofList text)) := by
  have hpiece : Cut.stringPiece content = .token (.string (String.ofList text)) := by
    rw [Cut.stringPiece, unescape_eq_ok_iff.mpr h]
  have hpieces := pieces_of_lawful (.string [] hquote hcontent)
  rw [List.append_nil, pieces, hpiece] at hpieces
  exact isOneToken_of_pieces hpieces

/-- Every number has a hexadecimal notation. -/
theorem hexValue_toDigits (n : Nat) : HexValue (Nat.toDigits 16 n) n := by
  have hdigit {digit : Nat} (h : digit < 16) : IsHexDigit digit.digitChar digit := ⟨h, .inl rfl⟩
  induction n using Nat.strong_induction_on with
  | _ n ih =>
      by_cases hn : n < 16
      · rw [Nat.toDigits_of_lt_base hn]
        simpa using HexValue.concat .nil (hdigit hn)
      · have hlast := HexValue.concat (ih (n / 16) (by omega)) (hdigit (n.mod_lt (by decide)))
        rwa [Nat.div_add_mod, ← Nat.toDigits_of_base_le (by decide) (Nat.le_of_not_lt hn)] at hlast

theorem toList_numberedEscape (c : Char) : (Text.numberedEscape c).toList =
    '\\' :: 'u' :: '\x7b' :: (Nat.toDigits 16 c.toNat ++ ['\x7d']) := by
  simp [Text.numberedEscape]

/-- The number of a character between braces is a unit, as no code point has more than six
digits. -/
theorem writes_numberedEscape (c : Char) : Writes (Text.numberedEscape c).toList c := by
  have hlength : 1 ≤ (Nat.toDigits 16 c.toNat).length ∧ (Nat.toDigits 16 c.toNat).length ≤ 6 := by
    have hlt : c.toNat < 16 ^ 6 := by
      have hvalid := c.valid
      unfold UInt32.isValidChar Nat.isValidChar at hvalid
      unfold Char.toNat
      omega
    exact ⟨Nat.length_toDigits_pos, (Nat.length_toDigits_le_iff (by decide) (by decide)).mpr hlt⟩
  rw [toList_numberedEscape]
  exact .braced hlength (hexValue_toDigits c.toNat)

theorem writesAll_flatMap {unit : Char → List Char} (h : ∀ c, Writes (unit c) c)
    (text : List Char) : WritesAll (text.flatMap unit) text := by
  induction text with
  | nil => exact .nil
  | cons c text ih => exact .cons (h c) ih

theorem ne_quote_of_mem_numberedEscape {quote : Char} (hquote : quote = '"' ∨ quote = '\'')
    {c d : Char} (h : d ∈ (Text.numberedEscape c).toList) : d ≠ quote := by
  have halphanum : quote.isAlphanum = false := by rcases hquote with rfl | rfl <;> rfl
  have hdigits := ne_of_hexValue (hexValue_toDigits c.toNat) halphanum
  rw [toList_numberedEscape] at h
  rcases hquote with rfl | rfl <;> grind

/-- The content of a string literal is read if and only if it consists of units, and it is then read
as what they write. Otherwise the error is that of the place where the first units end. Every text
can be written with nothing but the numbers of its characters. -/
theorem unescape_units (content text : List Char) (error : LexError) {quote : Char}
    (hquote : quote = '"' ∨ quote = '\'') :
    (unescape content = .ok text ↔ WritesAll content text) ∧
    ((unescape content).mapError LexError.ofEscape = .error error ↔
      ∃ front rest written, content = front ++ rest ∧ WritesAll front written ∧
        Malformed rest error) ∧
    IsOneToken (quote :: (text.flatMap (fun c => (Text.numberedEscape c).toList) ++ [quote]))
      (.string (String.ofList text)) := by
  refine ⟨unescape_eq_ok_iff, unescape_eq_error_iff, ?_⟩
  apply (writesAll_flatMap writes_numberedEscape text).isOneToken hquote
  intro d hd
  obtain ⟨c, -, hc⟩ := List.mem_flatMap.mp hd
  exact ne_quote_of_mem_numberedEscape hquote hc

/-- A digit is missing behind three units, and one character is written by its number. -/
theorem unescape_units_missingDigit :
    (∃ front rest written, "a\\n\\x41\\x4".toList = front ++ rest ∧ WritesAll front written ∧
      Malformed rest (.badCharEscape "x4")) ∧
    IsOneToken "'\\u\x7b1f600\x7d'".toList (.string "😀") := by
  have hunits := @unescape_units "a\\n\\x41\\x4".toList ['😀'] (.badCharEscape "x4") '\'' (.inr rfl)
  have hliteral : '\'' :: (['😀'].flatMap (fun c => (Text.numberedEscape c).toList) ++ ['\'']) =
      "'\\u\x7b1f600\x7d'".toList := by
    decide +kernel
  rw [hliteral] at hunits
  exact ⟨hunits.2.1.mp (by decide +kernel), hunits.2.2⟩

end Escape

end Stacklet
