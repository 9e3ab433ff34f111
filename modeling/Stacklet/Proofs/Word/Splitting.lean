import Mathlib.Algebra.Order.Group.Nat
import Stacklet.Proofs.Token.Offsets
import Stacklet.Proofs.Word.Meaning

/-! # Where words stand

The words of a text are its longest runs of characters that are no separators, in order. Each stands
where its run does, on the line that the newlines before it make. A text can also be split first and
the places counted on the way, with an offset that grows by every piece and the separator behind it
and a counter of 32 bits for lines: that comes to the same words.
-/

namespace Stacklet

/-- A part of a text that is a longest run of characters other than separators. -/
structure IsRun (before run behind : List Char) : Prop where
  ne_nil : run ≠ []
  inside : ∀ c ∈ run, isSeparator c = false
  front : ∀ c ∈ before.getLast?, isSeparator c = true
  back : ∀ c ∈ behind.head?, isSeparator c = true

/-- A word is a longest run of a text that starts on a line and at a byte offset, and has the span
of the run. -/
def IsRunOf (line offset : Nat) (text : List Char) (word : Located (List Char)) : Prop :=
  ∃ before behind, text = before ++ (word.value ++ behind) ∧ IsRun before word.value behind ∧
    word.span = ⟨line + newlines before, offset + byteLength before,
      offset + byteLength before + byteLength word.value⟩

/-- A word that stands for an instruction. -/
def IsKnown (word : List Char) : Prop :=
  ∃ instruction, Denotes word instruction

theorem isKnown_iff {word : List Char} :
    (Instruction.ofWord? word).isSome = true ↔ IsKnown word := by
  simp only [Option.isSome_iff_exists, ofWord?_eq_some_iff, IsKnown]

instance (word : List Char) : Decidable (IsKnown word) :=
  decidable_of_iff _ isKnown_iff

/-! ## Pieces between separators -/

/-- Texts are what stands behind their last separator, and what stands before the first one and
behind it. -/
@[elab_as_elim]
theorem pieces_induction {motive : List Char → Prop}
    (last : ∀ run, (∀ c ∈ run, isSeparator c = false) → motive run)
    (piece : ∀ run c rest, (∀ d ∈ run, isSeparator d = false) → isSeparator c = true →
      motive rest → motive (run ++ c :: rest))
    (text : List Char) : motive text := by
  induction hlength : text.length using Nat.strong_induction_on generalizing text with
  | _ length ih =>
      obtain ⟨run, rest, rfl, hrun, hrest⟩ := Cut.exists_run isWordChar text
      have hrun : ∀ c ∈ run, isSeparator c = false := by simpa [isWordChar] using hrun
      cases rest with
      | nil => simpa using last run hrun
      | cons c rest =>
          have hc : isSeparator c = true := by simpa [isWordChar] using hrest
          apply piece run c rest hrun hc
          apply ih rest.length _ rest rfl
          simp only [List.length_append, List.length_cons] at hlength
          omega

theorem newlines_of_run {run : List Char} (h : ∀ c ∈ run, isSeparator c = false) :
    newlines run = 0 := by
  apply List.count_eq_zero.mpr
  intro hnewline
  have hnot := h '\n' hnewline
  simp [isSeparator] at hnot

theorem utf8Size_of_isSeparator {c : Char} (h : isSeparator c = true) : c.utf8Size = 1 := by
  simp only [isSeparator, Bool.or_eq_true, decide_eq_true_eq] at h
  obtain (((((rfl | rfl) | rfl) | rfl) | rfl) | rfl) | rfl := h <;> rfl

/-- The word that a piece between separators is, if it is not empty. -/
def wordOf (line offset : Nat) (run : List Char) : List (Located (List Char)) :=
  if run = [] then [] else [⟨run, ⟨line, offset, offset + byteLength run⟩⟩]

theorem mem_wordOf_iff {line offset : Nat} {run : List Char} {word : Located (List Char)} :
    word ∈ wordOf line offset run ↔
      run ≠ [] ∧ word = ⟨run, ⟨line, offset, offset + byteLength run⟩⟩ := by
  by_cases h : run = [] <;> simp [wordOf, h]

section Pieces

variable {run rest : List Char} {c : Char}

/-- Where a run ends in a text. -/
theorem split_run (hrun : ∀ c ∈ run, isSeparator c = false)
    (hrest : ∀ c ∈ rest.head?, isSeparator c = true) :
    (run ++ rest).takeWhile isWordChar = run ∧ (run ++ rest).dropWhile isWordChar = rest := by
  have hrun : ∀ c ∈ run, isWordChar c = true := by simpa [isWordChar] using hrun
  have hrest : ∀ c ∈ rest.head?, isWordChar c = false := by simpa [isWordChar] using hrest
  exact ⟨Cut.takeWhile_run hrun hrest, Cut.dropWhile_run hrun hrest⟩

/-- A run up to a separator or the end is one word. -/
theorem words_append (hrun : ∀ c ∈ run, isSeparator c = false)
    (hrest : ∀ c ∈ rest.head?, isSeparator c = true) (line offset : Nat) :
    words line offset (run ++ rest) =
      wordOf line offset run ++ words line (offset + byteLength run) rest := by
  cases run with
  | nil => simp [wordOf]
  | cons d run =>
      obtain ⟨hd, hrun⟩ := List.forall_mem_cons.mp hrun
      obtain ⟨htake, hdrop⟩ := split_run hrun hrest
      simp [words, wordOf, hd, htake, hdrop]

theorem words_last (hrun : ∀ c ∈ run, isSeparator c = false) (line offset : Nat) :
    words line offset run = wordOf line offset run := by
  have happend := @words_append run [] hrun (by simp) line offset
  simpa [words] using happend

theorem words_piece (hrun : ∀ d ∈ run, isSeparator d = false) (hc : isSeparator c = true)
    (line offset : Nat) (rest : List Char) :
    words line offset (run ++ c :: rest) =
      wordOf line offset run ++
        words (line + newlines [c]) (offset + byteLength run + 1) rest := by
  rw [words_append hrun (by simpa using hc), words, if_pos hc, utf8Size_of_isSeparator hc]

end Pieces

/-! ## Words are runs -/

section Runs

variable {before run behind rest : List Char} {c : Char} {line offset : Nat}
variable {word : Located (List Char)}

/-- Only the end of a run follows it in a text without separators, and nothing stands before it. -/
theorem IsRun.eq_of_append (h : IsRun before run behind)
    (hall : ∀ c ∈ before ++ (run ++ behind), isSeparator c = false) :
    before = [] ∧ behind = [] := by
  constructor
  · apply List.getLast?_eq_none_iff.mp
    apply Option.eq_none_iff_forall_not_mem.mpr
    intro c hc
    have hseparator := h.front c hc
    have hnot := hall c (List.mem_append_left _ (List.mem_of_getLast? hc))
    simp [hseparator] at hnot
  · apply List.head?_eq_none_iff.mp
    apply Option.eq_none_iff_forall_not_mem.mpr
    intro c hc
    have hseparator := h.back c hc
    have hnot := hall c (by simp [List.mem_of_head? hc])
    simp [hseparator] at hnot

/-- A run at the front of a text ends at the first separator. -/
theorem IsRun.eq_of_front (h : IsRun [] run behind) {piece : List Char}
    (htext : run ++ behind = piece ++ c :: rest) (hpiece : ∀ d ∈ piece, isSeparator d = false)
    (hc : isSeparator c = true) : run = piece := by
  have hrun := (split_run h.inside h.back).1
  have hfirst := (@split_run piece (c :: rest) hpiece (by simpa using hc)).1
  rw [← hrun, htext, hfirst]

/-- What stands before a separator does not matter for a run behind it. -/
theorem isRun_behind_separator (hc : isSeparator c = true) {piece : List Char} :
    IsRun (piece ++ c :: before) run behind ↔ IsRun before run behind := by
  have hfront : (∀ d ∈ (piece ++ c :: before).getLast?, isSeparator d = true) ↔
      ∀ d ∈ before.getLast?, isSeparator d = true := by
    cases before <;> simp [hc]
  constructor
  · intro h
    exact ⟨h.ne_nil, h.inside, hfront.mp h.front, h.back⟩
  · intro h
    exact ⟨h.ne_nil, h.inside, hfront.mpr h.front, h.back⟩

/-- A run behind other characters, the last of them a separator, stands behind the first
separator. -/
theorem IsRun.exists_behind (h : IsRun before run behind) (hne : before ≠ []) {piece : List Char}
    (htext : before ++ (run ++ behind) = piece ++ c :: rest)
    (hpiece : ∀ d ∈ piece, isSeparator d = false) (hc : isSeparator c = true) :
    ∃ more, before = piece ++ c :: more ∧ rest = more ++ (run ++ behind) := by
  rcases List.append_eq_append_iff.mp htext with ⟨more, hmore, -⟩ | ⟨more, rfl, hmore⟩
  · -- The last character before the run would be in the piece.
    obtain ⟨d, hd⟩ := Option.isSome_iff_exists.mp (List.getLast?_isSome.mpr hne)
    have hseparator := h.front d hd
    have hnot := hpiece d (hmore ▸ List.mem_append_left _ (List.mem_of_getLast? hd))
    simp [hseparator] at hnot
  · cases more with
    | nil =>
        obtain ⟨d, run, rfl⟩ := List.exists_cons_of_ne_nil h.ne_nil
        obtain ⟨rfl, -⟩ := List.cons.inj hmore
        have hnot := h.inside c List.mem_cons_self
        simp [hc] at hnot
    | cons d more =>
        obtain ⟨rfl, rfl⟩ := List.cons.inj hmore
        exact ⟨more, rfl, rfl⟩

theorem isRunOf_last (hrun : ∀ c ∈ run, isSeparator c = false) :
    IsRunOf line offset run word ↔ word ∈ wordOf line offset run := by
  obtain ⟨value, span⟩ := word
  rw [mem_wordOf_iff]
  constructor
  · rintro ⟨before, behind, htext, hword, hspan⟩
    obtain ⟨rfl, rfl⟩ := hword.eq_of_append (htext ▸ hrun)
    simp only [List.nil_append, List.append_nil] at htext
    subst htext
    refine ⟨hword.ne_nil, ?_⟩
    simpa [newlines] using hspan
  · rintro ⟨hne, hword⟩
    cases hword
    exact ⟨[], [], by simp, ⟨hne, hrun, by simp, by simp⟩, by simp [newlines]⟩

/-- The runs of a text are what stands before the first separator, if anything does, and the runs
behind it. -/
theorem isRunOf_piece (hrun : ∀ d ∈ run, isSeparator d = false) (hc : isSeparator c = true) :
    IsRunOf line offset (run ++ c :: rest) word ↔
      word ∈ wordOf line offset run ∨
        IsRunOf (line + newlines [c]) (offset + byteLength run + 1) rest word := by
  obtain ⟨value, span⟩ := word
  have hnewlines (before : List Char) :
      line + newlines (run ++ c :: before) = line + newlines [c] + newlines before := by
    rw [← List.singleton_append, newlines_append, newlines_append, newlines_of_run hrun]
    omega
  have hbytes (before : List Char) :
      offset + byteLength (run ++ c :: before) =
        offset + byteLength run + 1 + byteLength before := by
    rw [byteLength_append, byteLength_cons, utf8Size_of_isSeparator hc]
    omega
  rw [mem_wordOf_iff]
  constructor
  · rintro ⟨before, behind, htext, hword, hspan⟩
    by_cases hfirst : before = []
    · left
      subst hfirst
      obtain rfl : value = run := hword.eq_of_front htext.symm hrun hc
      refine ⟨hword.ne_nil, ?_⟩
      simpa [newlines] using hspan
    · right
      obtain ⟨before, rfl, hrest⟩ := hword.exists_behind hfirst htext.symm hrun hc
      refine ⟨before, behind, hrest, (isRun_behind_separator hc).mp hword, ?_⟩
      rw [hspan, hnewlines, hbytes]
  · rintro (⟨hne, hword⟩ | ⟨before, behind, rfl, hword, hspan⟩)
    · cases hword
      exact ⟨[], c :: rest, by simp, ⟨hne, hrun, by simp, by simpa using hc⟩, by simp [newlines]⟩
    · refine ⟨run ++ c :: before, behind, by simp, (isRun_behind_separator hc).mpr hword, ?_⟩
      rw [hspan, hnewlines, hbytes]

/-- The words of a text are its longest runs of characters that are no separators. -/
theorem mem_words_iff {text : List Char} : word ∈ words line offset text ↔
    IsRunOf line offset text word := by
  induction text using pieces_induction generalizing line offset with
  | last run hrun => rw [words_last hrun, isRunOf_last hrun]
  | piece run c rest hrun hc ih =>
      rw [words_piece hrun hc, isRunOf_piece hrun hc, List.mem_append, ih]

/-- Words stand in order, with a separator between any two. -/
theorem pairwise_words (line offset : Nat) (text : List Char) :
    (words line offset text).Pairwise fun word later => word.span.stop < later.span.start := by
  induction text using pieces_induction generalizing line offset with
  | last run hrun =>
      rw [words_last hrun, wordOf]
      split <;> simp
  | piece run c rest hrun hc ih =>
      rw [words_piece hrun hc, List.pairwise_append]
      refine ⟨?_, ih _ _, ?_⟩
      · rw [wordOf]
        split <;> simp
      · intro word hword later hlater
        obtain ⟨-, rfl⟩ := mem_wordOf_iff.mp hword
        obtain ⟨before, -, -, -, hspan⟩ := mem_words_iff.mp hlater
        rw [hspan]
        simp only
        omega

end Runs

/-! ## Counting while splitting -/

namespace Splitting

/-- The words among pieces of a text, from a line and an offset on. Behind every piece the lines are
counted in a slice of the text: the piece and the separator behind it, or what is left of the text.
-/
def wordsFrom (text : List Char) (line : UInt32) (offset : Nat) :
    List (List Char) → Option (List (Located (List Char)))
  | [] => some []
  | piece :: more => do
    let stop := offset + byteLength piece
    let passed ← slice? text offset (min (stop + 1) (byteLength text))
    let rest ← wordsFrom text (line + .ofNat (newlines passed)) (stop + 1) more
    return if piece = [] then rest else ⟨piece, ⟨line.toNat, offset, stop⟩⟩ :: rest

/-- The words of a text that is split at every separator. -/
def words? (text : List Char) : Option (List (Located (List Char))) :=
  wordsFrom text 1 0 (text.splitOnP isSeparator)

variable {text front : List Char}

/-- No slice is missing, and while the counter does not overflow the words are those of the text. -/
theorem wordsFrom_eq {rest : List Char} {line : UInt32} (h : text = front ++ rest)
    (hcount : line.toNat + newlines rest < 2 ^ 32) :
    wordsFrom text line (byteLength front) (rest.splitOnP isSeparator) =
      some (words line.toNat (byteLength front) rest) := by
  induction rest using pieces_induction generalizing front line with
  | last run hrun =>
      have hslice := slice?_append front run []
      have hstop : min (byteLength front + byteLength run + 1) (byteLength text) =
          byteLength front + byteLength run := by
        rw [h, byteLength_append]
        omega
      rw [List.append_nil, ← h, ← hstop] at hslice
      rw [List.splitOnP_eq_singleton hrun, words_last hrun]
      simp [wordsFrom, hslice, wordOf]
  | piece run c rest hrun hc ih =>
      have hnewlines : newlines (run ++ c :: rest) = newlines [c] + newlines rest := by
        rw [← List.singleton_append, newlines_append, newlines_append, newlines_of_run hrun,
          Nat.zero_add]
      have hpassed : newlines (run ++ [c]) = newlines [c] := by
        rw [newlines_append, newlines_of_run hrun, Nat.zero_add]
      have hstop : byteLength (front ++ (run ++ [c])) =
          byteLength front + byteLength run + 1 := by
        simp [utf8Size_of_isSeparator hc, Nat.add_assoc]
      have htext : text = front ++ ((run ++ [c]) ++ rest) := by simpa using h
      have hslice := slice?_append front (run ++ [c]) rest
      have hwithin : min (byteLength front + byteLength run + 1) (byteLength text) =
          byteLength front + byteLength run + 1 := by
        rw [htext, ← List.append_assoc, byteLength_append, hstop]
        omega
      rw [← htext, ← byteLength_append, hstop, ← hwithin] at hslice
      have hline : (line + .ofNat (newlines [c])).toNat = line.toNat + newlines [c] :=
        toNat_add_ofNat (by omega)
      have hmore := @ih (front ++ (run ++ [c])) (line + .ofNat (newlines [c])) (by simpa using h)
        (by omega)
      rw [hstop, hline] at hmore
      rw [List.splitOnP_append_cons_of_forall_mem hrun c hc, words_piece hrun hc]
      simp only [wordsFrom, hslice, hpassed, hmore, wordOf, Option.bind_eq_bind, Option.bind_some,
        Option.pure_def]
      split <;> simp

theorem words?_eq (h : newlines text < 2 ^ 32 - 1) : words? text = some (words 1 0 text) := by
  apply wordsFrom_eq (List.nil_append text).symm
  have hone : (1 : UInt32).toNat = 1 := rfl
  omega

end Splitting

/-! ## What a text is read as -/

/-- A word stands where it is: its span is a slice of the source, between characters, and the line
that it carries is the one on which it starts. -/
structure WordPlaced (source : Source) (word : Located (List Char)) : Prop where
  slice : slice? source.text word.span.start word.span.stop = some word.value
  lexeme : word.span.lexemeIn source = word.value
  line_eq : word.span.line = 1 + newlines (charsWithin word.span.start source.text)
  line_startIn : word.span.line = (word.span.startIn source).line.toNat

theorem IsRunOf.wordPlaced {source : Source} {word : Located (List Char)}
    (hlines : newlines source.text < 2 ^ 32 - 1) (h : IsRunOf 1 0 source.text word) :
    WordPlaced source word := by
  obtain ⟨before, behind, htext, -, hspan⟩ := h
  have hslice : slice? source.text word.span.start word.span.stop = some word.value := by
    rw [htext, hspan, Nat.zero_add]
    exact slice?_append before word.value behind
  have hbefore : charsWithin word.span.start source.text = before := by
    rw [htext, hspan, Nat.zero_add]
    exact charsWithin_append before (word.value ++ behind)
  refine ⟨hslice, lexemeIn_of_slice? hslice, ?_, ?_⟩
  · rw [hbefore, hspan]
  · rw [Span.startIn, Source.position, hbefore, hspan, Position.toNat_line_after]
    rw [htext, newlines_append] at hlines
    omega

theorem unknownWords_eq (read : List (Located (List Char))) :
    unknownWords read = (read.filter fun word => ¬ IsKnown word.value).map fun word =>
      ⟨.unknown (String.ofList word.value), word.span⟩ := by
  induction read with
  | nil => rfl
  | cons word rest ih =>
      have hknown : _ ↔ IsKnown word.value := isKnown_iff
      cases hword : Instruction.ofWord? word.value with
      | none =>
          rw [hword] at hknown
          have hnot : ¬ IsKnown word.value := by simpa using hknown
          rw [List.filter_cons_of_pos (by simpa using hnot), List.map_cons, ← ih]
          simp only [unknownWords, List.filterMap_cons, hword]
      | some instruction =>
          rw [hword] at hknown
          have hyes : IsKnown word.value := by simpa using hknown
          rw [List.filter_cons_of_neg (by simpa using hyes), ← ih]
          simp only [unknownWords, List.filterMap_cons, hword]

theorem unknownWords_eq_nil_iff {read : List (Located (List Char))} :
    unknownWords read = [] ↔ ∀ word ∈ read, IsKnown word.value := by
  simp [unknownWords_eq, List.filter_eq_nil_iff]

/-- A source is split at its separators, and every word is read in its place. -/
structure SplitsAtSeparators (source : Source) : Prop where
  /-- Counting while splitting comes to the words that are read. -/
  counted : Splitting.words? source.text = some (words 1 0 source.text)
  /-- The words are the longest runs of characters that are no separators. -/
  mem_iff : ∀ word, word ∈ words 1 0 source.text ↔ IsRunOf 1 0 source.text word
  ordered : (words 1 0 source.text).Pairwise fun word later => word.span.stop < later.span.start
  placed : ∀ word ∈ words 1 0 source.text, WordPlaced source word
  /-- There are instructions if every word is known. -/
  known_iff : (∃ read, readWords source.text = .ok read) ↔
    ∀ word ∈ words 1 0 source.text, IsKnown word.value
  /-- They are read from the words, one from each. -/
  read : ∀ read, readWords source.text = .ok read →
    List.Forall₂ ReadFrom (words 1 0 source.text) read
  /-- Otherwise all words that are not known are reported, in their places. -/
  unknown : (¬ ∀ word ∈ words 1 0 source.text, IsKnown word.value) →
    readWords source.text =
      .error (((words 1 0 source.text).filter fun word => ¬ IsKnown word.value).map fun word =>
        ⟨.unknown (String.ofList word.value), word.span⟩)

theorem readWords_splits_at_separators (source : Source)
    (h : newlines source.text < 2 ^ 32 - 1) : SplitsAtSeparators source := by
  have hknown : unknownWords (words 1 0 source.text) = [] ↔
      ∀ word ∈ words 1 0 source.text, IsKnown word.value := unknownWords_eq_nil_iff
  have herror : (¬ ∀ word ∈ words 1 0 source.text, IsKnown word.value) →
      readWords source.text = .error (unknownWords (words 1 0 source.text)) := by
    intro hnot
    rw [readWords, if_neg]
    simpa [hknown] using hnot
  constructor
  case counted => exact Splitting.words?_eq h
  case mem_iff =>
    intro word
    exact mem_words_iff
  case ordered => exact pairwise_words 1 0 source.text
  case placed =>
    intro word hword
    exact (mem_words_iff.mp hword).wordPlaced h
  case known_iff =>
    constructor
    · rintro ⟨read, hread⟩
      by_contra hnot
      rw [herror hnot] at hread
      cases hread
    · intro hall
      rw [readWords, if_pos (by simpa using hknown.mpr hall)]
      exact ⟨_, rfl⟩
  case read =>
    intro read hread
    exact forall₂_readFrom_of_readWords hread
  case unknown =>
    intro hnot
    rw [herror hnot, unknownWords_eq]

/-- Separators at both ends and next to each other, and a word of two bytes. -/
theorem readWords_splits_at_separators_unknown :
    newlines "\n,é'\r\n!2 dup\t".toList < 2 ^ 32 - 1 ∧
      SplitsAtSeparators ⟨"test", "\n,é'\r\n!2 dup\t".toList⟩ ∧
      words 1 0 "\n,é'\r\n!2 dup\t".toList =
        [⟨['é'], ⟨2, 2, 4⟩⟩, ⟨['2'], ⟨3, 8, 9⟩⟩, ⟨['d', 'u', 'p'], ⟨3, 10, 13⟩⟩] :=
  ⟨by decide, readWords_splits_at_separators ⟨"test", "\n,é'\r\n!2 dup\t".toList⟩ (by decide),
    by decide +kernel⟩

end Stacklet
