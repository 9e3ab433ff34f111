import Stacklet.Proofs.Token.Counting

/-! # Positions and offsets

The text before an offset consists of whole lines and the beginning of one more. The lines make the
line of a position and the characters behind them its column. While 32 bits are enough to count
both, positions are ordered as offsets are, and a position determines its offset. Behind more lines
than that, or on a longer line, positions come again.
-/

namespace Stacklet

/-! ## Offsets between characters -/

theorem byteLength_reverse (text : List Char) : byteLength text.reverse = byteLength text := by
  induction text with
  | nil => rfl
  | cons c rest ih => simp [ih, Nat.add_comm]

/-- An offset between characters is the length of the text before it. -/
theorem exists_append_of_isBoundary {text : List Char} {offset : Nat}
    (hwithin : offset ≤ byteLength text) (hboundary : isBoundary offset text = true) :
    ∃ front behind, text = front ++ behind ∧ byteLength front = offset := by
  obtain ⟨behind, hbehind⟩ := charsWithin_prefix offset text
  exact ⟨_, behind, hbehind.symm, byteLength_charsWithin hwithin hboundary⟩

/-- Beginnings of one text that are of the same length are the same. -/
theorem eq_of_byteLength_eq {text front longer : List Char} (hfront : front <+: text)
    (hlonger : longer <+: text) (hlength : byteLength front = byteLength longer) :
    front = longer := by
  obtain ⟨behind, rfl⟩ := hfront
  obtain ⟨rest, hrest⟩ := hlonger
  rw [← charsWithin_append front behind, hlength, ← hrest, charsWithin_append]

/-- Of two beginnings of a text, the longer one goes on behind the shorter one. -/
theorem exists_append_of_byteLength_lt {text front behind longer rest : List Char}
    (h : text = front ++ behind) (hlonger : text = longer ++ rest)
    (hlt : byteLength front < byteLength longer) :
    ∃ among, among ≠ [] ∧ longer = front ++ among := by
  rcases List.append_eq_append_iff.mp (h.symm.trans hlonger) with ⟨among, rfl, -⟩ | ⟨more, rfl, -⟩
  · refine ⟨among, ?_, rfl⟩
    rintro rfl
    rw [List.append_nil] at hlt
    exact Nat.lt_irrefl _ hlt
  · rw [byteLength_append] at hlt
    omega

theorem charsWithin_of_byteLength_le {text : List Char} {offset : Nat}
    (h : byteLength text ≤ offset) : charsWithin offset text = text := by
  obtain ⟨more, rfl⟩ := Nat.exists_eq_add_of_le h
  have hadd := charsWithin_add text [] more
  rwa [List.append_nil, charsWithin, List.append_nil] at hadd

/-! ## Whole lines -/

/-- A text of whole lines is empty or ends with a newline. -/
def IsLines (text : List Char) : Prop :=
  ∀ c ∈ text.getLast?, c = '\n'

/-- The first lines of a text, each with the newline that ends it. -/
def firstLines : (count : Nat) → List Char → List Char
  | 0, _ => []
  | _ + 1, [] => []
  | count + 1, c :: rest => c :: firstLines (if c = '\n' then count else count + 1) rest

/-- What is behind the first lines of a text. -/
def behindLines (count : Nat) (text : List Char) : List Char :=
  text.drop (firstLines count text).length

theorem isLines_concat (text : List Char) : IsLines (text ++ ['\n']) := by
  rw [IsLines, List.getLast?_concat]
  rintro _ ⟨⟩
  rfl

/-- Every text consists of whole lines and a part of one more. -/
theorem exists_isLines_append (text : List Char) :
    ∃ whole part, text = whole ++ part ∧ IsLines whole ∧ '\n' ∉ part := by
  induction text using List.reverseRecOn with
  | nil => exact ⟨[], [], rfl, nofun, List.not_mem_nil⟩
  | append_singleton text c ih =>
      by_cases hc : c = '\n'
      · subst hc
        exact ⟨_, [], (List.append_nil _).symm, isLines_concat text, List.not_mem_nil⟩
      · obtain ⟨whole, part, rfl, hwhole, hpart⟩ := ih
        refine ⟨whole, part ++ [c], List.append_assoc _ _ _, hwhole, ?_⟩
        simpa [hpart] using Ne.symm hc

theorem newlines_of_notMem {text : List Char} (h : '\n' ∉ text) : newlines text = 0 :=
  List.count_eq_zero.mpr h

theorem newlines_append_of_notMem (front : List Char) {behind : List Char} (h : '\n' ∉ behind) :
    newlines (front ++ behind) = newlines front := by
  rw [newlines_append, newlines_of_notMem h, Nat.add_zero]

theorem newlines_pos {text : List Char} (h : '\n' ∈ text) : 0 < newlines text :=
  List.count_pos_iff.mpr h

theorem firstLines_zero (text : List Char) : firstLines 0 text = [] := by
  cases text <;> rfl

variable {whole part behind : List Char}

theorem IsLines.newline_mem (h : IsLines whole) (hne : whole ≠ []) : '\n' ∈ whole :=
  h _ (List.getLast?_eq_some_getLast hne) ▸ List.getLast_mem hne

/-- Whole lines are the first lines of every text that begins with them. -/
theorem firstLines_append (h : IsLines whole) (behind : List Char) :
    firstLines (newlines whole) (whole ++ behind) = whole := by
  induction whole with
  | nil => rw [newlines_of_notMem List.not_mem_nil, firstLines_zero]
  | cons c rest ih =>
      rw [newlines_cons]
      by_cases hrest : rest = []
      · obtain rfl : c = '\n' := h c (by simp [hrest])
        subst hrest
        rw [if_pos rfl, newlines_of_notMem List.not_mem_nil, List.singleton_append]
        simp [firstLines, firstLines_zero]
      · -- The last of the lines is ended behind the first character.
        have hlines : IsLines rest := by
          intro last hlast
          apply h
          rwa [List.getLast?_cons_of_ne_nil hrest]
        obtain ⟨count, hmore⟩ := Nat.exists_eq_succ_of_ne_zero
          (Nat.ne_zero_of_lt (newlines_pos (hlines.newline_mem hrest)))
        have hnext := ih hlines
        by_cases hc : c = '\n'
        · rw [if_pos hc, Nat.add_comm, List.cons_append, firstLines, if_pos hc, hnext]
        · rw [hmore] at hnext
          rw [if_neg hc, Nat.zero_add, hmore, List.cons_append, firstLines, if_neg hc, hnext]

theorem behindLines_append (h : IsLines whole) (behind : List Char) :
    behindLines (newlines whole) (whole ++ behind) = behind := by
  rw [behindLines, firstLines_append h, List.drop_left]

theorem firstLines_append_behindLines (count : Nat) (text : List Char) :
    firstLines count text ++ behindLines count text = text := by
  have hbegin : firstLines count text <+: text := by
    fun_induction firstLines count text with
    | case1 => exact List.nil_prefix
    | case2 => exact List.nil_prefix
    | case3 count c rest ih => exact (List.cons_prefix_cons).mpr ⟨rfl, ih⟩
  exact (List.prefix_append_drop hbegin).symm

theorem firstLines_append_take_isPrefix (line column : Nat) (text : List Char) :
    firstLines line text ++ (behindLines line text).take column <+: text := by
  refine ⟨(behindLines line text).drop column, ?_⟩
  rw [List.append_assoc, List.take_append_drop, firstLines_append_behindLines]

/-- No more newlines than lines. -/
theorem newlines_firstLines_le (count : Nat) (text : List Char) :
    newlines (firstLines count text) ≤ count := by
  fun_induction firstLines count text with
  | case1 => exact Nat.le_refl 0
  | case2 => exact Nat.zero_le _
  | case3 count c rest ih =>
      rw [newlines_cons]
      by_cases hc : c = '\n'
      · simp only [if_pos hc] at ih ⊢
        omega
      · simp only [if_neg hc] at ih ⊢
        omega

/-- A text begins with any number of whole lines up to its own. -/
theorem exists_isLines_of_le {text : List Char} {count : Nat} (h : count ≤ newlines text) :
    ∃ whole rest, text = whole ++ rest ∧ IsLines whole ∧ newlines whole = count := by
  induction text using List.reverseRecOn with
  | nil => exact ⟨[], [], rfl, nofun, (Nat.le_zero.mp h).symm⟩
  | append_singleton text c ih =>
      by_cases hcount : count ≤ newlines text
      · obtain ⟨whole, rest, rfl, hwhole, hlines⟩ := ih hcount
        exact ⟨whole, rest ++ [c], List.append_assoc _ _ _, hwhole, hlines⟩
      · -- The last of the lines ends with the text.
        have hc : c = '\n' := by
          by_contra hc
          have hnone : '\n' ∉ [c] := by simpa using Ne.symm hc
          rw [newlines_append, newlines_of_notMem hnone] at h
          exact hcount h
        subst hc
        have hone : newlines ['\n'] = 1 := rfl
        refine ⟨_, [], (List.append_nil _).symm, isLines_concat text, ?_⟩
        rw [newlines_append] at h ⊢
        omega

/-- Passing some of the lines and some characters more comes to the end of a part if no line and no
character of it was left out. -/
theorem firstLines_append_take_eq_iff {text : List Char} {line column : Nat} (h : IsLines whole)
    (htext : text = whole ++ (part ++ behind)) (hline : line ≤ newlines whole)
    (hcolumn : column ≤ part.length) :
    firstLines line text ++ (behindLines line text).take column = whole ++ part ↔
      line = newlines whole ∧ column = part.length := by
  constructor
  · intro hpassed
    have hlength := congrArg List.length hpassed
    rw [List.length_append, List.length_append, List.length_take] at hlength
    have hbegin : whole <+: firstLines line text := by
      apply List.prefix_of_prefix_length_le (List.prefix_append whole part) ⟨_, hpassed⟩
      omega
    have hall : line = newlines whole :=
      Nat.le_antisymm hline ((hbegin.sublist.count_le '\n').trans (newlines_firstLines_le _ _))
    refine ⟨hall, ?_⟩
    rw [hall, htext, firstLines_append h] at hlength
    omega
  · rintro ⟨rfl, rfl⟩
    rw [htext, firstLines_append h, behindLines_append h, List.take_left]

/-! ## Positions -/

theorem reverse_append_of_isLines (h : IsLines whole) (hpart : '\n' ∉ part) :
    (whole ++ part).reverse.takeWhile (· ≠ '\n') = part.reverse ∧
      (whole ++ part).reverse.dropWhile (· ≠ '\n') = whole.reverse := by
  have hrun : ∀ c ∈ part.reverse, decide (c ≠ '\n') = true := by
    intro c hc
    rw [List.mem_reverse] at hc
    exact decide_eq_true fun heq => hpart (heq ▸ hc)
  rw [List.reverse_append, List.takeWhile_append_of_pos hrun, List.dropWhile_append_of_pos hrun]
  rcases hreverse : whole.reverse with _ | ⟨last, rest⟩
  · simp
  · have hlast : last = '\n' := by
      apply h
      rw [List.getLast?_eq_head?_reverse, hreverse]
      rfl
    simp [hlast]

theorem lastLine_append (h : IsLines whole) (hpart : '\n' ∉ part) :
    lastLine (whole ++ part) = part := by
  rw [lastLine, (reverse_append_of_isLines h hpart).1, List.reverse_reverse]

/-- A count of 32 bits from one on, taken back to a count from zero on, is not too large. -/
theorem toNat_one_add_sub_one_le (count : Nat) : (1 + UInt32.ofNat count).toNat - 1 ≤ count := by
  rw [UInt32.toNat_add, UInt32.toNat_one, UInt32.toNat_ofNat']
  omega

/-- And it is right until it overflows. -/
theorem toNat_one_add_sub_one_eq_iff {count : Nat} :
    (1 + UInt32.ofNat count).toNat - 1 = count ↔ count < 2 ^ 32 - 1 := by
  rw [UInt32.toNat_add, UInt32.toNat_one, UInt32.toNat_ofNat']
  omega

namespace Position

/-- A text of which the lines, and the columns of the last line, can be counted in 32 bits. -/
structure Fits (text : List Char) : Prop where
  lines : newlines text < 2 ^ 32 - 1
  columns : (lastLine text).length < 2 ^ 32 - 1

/-- Whole lines make the line, and the part of one more the column. -/
theorem after_append (h : IsLines whole) (hpart : '\n' ∉ part) :
    after (whole ++ part) = ⟨1 + .ofNat (newlines whole), 1 + .ofNat part.length⟩ := by
  rw [after, lastLine_append h hpart, newlines_append_of_notMem whole hpart]

theorem after_of_isLines (h : IsLines whole) : after whole = ⟨1 + .ofNat (newlines whole), 1⟩ := by
  have hafter := after_append h List.not_mem_nil
  rw [List.append_nil] at hafter
  exact hafter

theorem fits_append_iff (h : IsLines whole) (hpart : '\n' ∉ part) :
    Fits (whole ++ part) ↔ newlines whole < 2 ^ 32 - 1 ∧ part.length < 2 ^ 32 - 1 := by
  constructor
  · rintro ⟨hlines, hcolumns⟩
    rw [newlines_append_of_notMem whole hpart] at hlines
    rw [lastLine_append h hpart] at hcolumns
    exact ⟨hlines, hcolumns⟩
  · rintro ⟨hlines, hcolumns⟩
    refine ⟨?_, ?_⟩
    · rwa [newlines_append_of_notMem whole hpart]
    · rwa [lastLine_append h hpart]

/-- Places are ordered by lines, and on a line by columns. -/
instance : LT Position where
  lt place later := place.line < later.line ∨ place.line = later.line ∧ place.column < later.column

theorem lt_iff {place later : Position} :
    place < later ↔
      place.line < later.line ∨ place.line = later.line ∧ place.column < later.column :=
  Iff.rfl

/-- Every character moves the place on, while the new place fits. -/
theorem after_lt_after_append (front : List Char) {among : List Char} (h : among ≠ [])
    (hfits : Fits (front ++ among)) : after front < after (front ++ among) := by
  rw [lt_iff]
  by_cases hnewline : '\n' ∈ among
  · left
    have hpos := newlines_pos hnewline
    have hlines := hfits.lines
    rw [newlines_append] at hlines
    rw [UInt32.lt_iff_toNat_lt, toNat_line_after hfits.lines, toNat_line_after (by omega),
      newlines_append]
    omega
  · right
    obtain ⟨whole, part, rfl, hwhole, hpart⟩ := exists_isLines_append front
    have hlonger : '\n' ∉ part ++ among := by simp [hpart, hnewline]
    have hlength := List.length_pos_iff.mpr h
    rw [List.append_assoc] at hfits ⊢
    obtain ⟨-, hcolumns⟩ := (fits_append_iff hwhole hlonger).mp hfits
    rw [List.length_append] at hcolumns
    rw [after_append hwhole hpart, after_append hwhole hlonger, List.length_append]
    refine ⟨rfl, ?_⟩
    rw [UInt32.lt_iff_toNat_lt, toNat_one_add_ofNat (by omega), toNat_one_add_ofNat (by omega)]
    omega

/-- If the place behind a text does not fit, then places before it are out of order. -/
theorem exists_not_lt_of_not_fits {text : List Char} (h : ¬ Fits text) :
    ∃ front among rest, text = front ++ among ++ rest ∧ among ≠ [] ∧
      ¬ after front < after (front ++ among) := by
  obtain ⟨whole, part, rfl, hwhole, hpart⟩ := exists_isLines_append text
  have hzero : (1 : UInt32) + .ofNat (2 ^ 32 - 1) = 0 := by decide
  by_cases hlines : newlines whole < 2 ^ 32 - 1
  · -- The columns of the last line overflow. The line starts at column one.
    have hcolumns : 2 ^ 32 - 1 ≤ part.length := by
      rw [fits_append_iff hwhole hpart] at h
      exact Nat.le_of_not_lt fun hlt => h ⟨hlines, hlt⟩
    refine ⟨whole, part.take (2 ^ 32 - 1), part.drop (2 ^ 32 - 1), ?_, ?_, ?_⟩
    · rw [List.append_assoc, List.take_append_drop]
    · apply List.ne_nil_of_length_pos
      rw [List.length_take]
      omega
    · have htaken : '\n' ∉ part.take (2 ^ 32 - 1) := fun hmem => hpart (List.mem_of_mem_take hmem)
      rw [after_of_isLines hwhole, after_append hwhole htaken, List.length_take,
        Nat.min_eq_left hcolumns, hzero, lt_iff]
      simp
  · -- The lines overflow. The first of them is line one.
    obtain ⟨first, rest, rfl, hfirst, hcount⟩ :=
      exists_isLines_of_le (Nat.le_of_not_lt hlines)
    refine ⟨[], first, rest ++ part, ?_, ?_, ?_⟩
    · rw [List.nil_append, List.append_assoc]
    · rintro rfl
      cases hcount
    · have hnothing : after [] = ⟨1, 1⟩ := rfl
      rw [hnothing, List.nil_append, after_of_isLines hfirst, hcount, hzero, lt_iff]
      decide

end Position

namespace Source

variable {source : Source} {front behind : List Char}

theorem position_of_append (h : source.text = front ++ behind) :
    source.position (byteLength front) = .after front := by
  rw [position, h, charsWithin_append]

/-- The offset of a place: the length of the lines before it and of the characters before it on its
line. -/
def offset (source : Source) (place : Position) : Nat :=
  byteLength (firstLines (place.line.toNat - 1) source.text) +
    byteLength ((behindLines (place.line.toNat - 1) source.text).take (place.column.toNat - 1))

/-- The offset behind a text is recovered from the place there if the place fits. -/
theorem offset_after_iff (h : source.text = front ++ behind) :
    source.offset (.after front) = byteLength front ↔ Position.Fits front := by
  obtain ⟨whole, part, rfl, hwhole, hpart⟩ := exists_isLines_append front
  have htext : source.text = whole ++ (part ++ behind) := by rw [h, List.append_assoc]
  rw [Position.fits_append_iff hwhole hpart, ← toNat_one_add_sub_one_eq_iff,
    ← toNat_one_add_sub_one_eq_iff, ← firstLines_append_take_eq_iff hwhole htext
      (toNat_one_add_sub_one_le _) (toNat_one_add_sub_one_le _),
    offset, Position.after_append hwhole hpart, ← byteLength_append]
  constructor
  · exact eq_of_byteLength_eq (firstLines_append_take_isPrefix _ _ _) ⟨behind, h.symm⟩
  · exact congrArg byteLength

/-! ## Counting in slices -/

/-- The place at an offset, counted in slices. The text before the offset is a slice of the text, and
the part of it behind its last newline is one of that. -/
def countedPosition? (source : Source) (offset : Nat) : Option Position := do
  let before ← slice? source.text 0 (min offset (byteLength source.text))
  let lineStart := byteLength (before.reverse.dropWhile (· ≠ '\n'))
  let part ← slice? before lineStart (byteLength before)
  return ⟨1 + .ofNat (newlines before), 1 + .ofNat part.length⟩

theorem countedPosition?_eq (h : source.text = front ++ behind) :
    source.countedPosition? (byteLength front) = some (source.position (byteLength front)) := by
  have hwithin : min (byteLength front) (byteLength source.text) = byteLength front := by
    rw [h, byteLength_append]
    omega
  have hbefore := slice?_append [] front behind
  obtain ⟨whole, part, rfl, hwhole, hpart⟩ := exists_isLines_append front
  have hrest := slice?_append whole part []
  simp only [List.nil_append, List.append_nil, byteLength_nil, Nat.zero_add, ← h] at hbefore hrest
  rw [← byteLength_append] at hrest
  simp only [countedPosition?, hwithin, hbefore, (reverse_append_of_isLines hwhole hpart).2,
    byteLength_reverse, hrest, position_of_append h, Position.after_append hwhole hpart,
    newlines_append_of_notMem whole hpart, Option.bind_eq_bind, Option.bind_some, Option.pure_def]

theorem position_of_byteLength_le {offset : Nat} (h : byteLength source.text ≤ offset) :
    source.position offset = source.position (byteLength source.text) := by
  rw [position, position, charsWithin_of_byteLength_le h, charsWithin_of_byteLength_le le_rfl]

/-- Between characters, and beyond the end, no slice is missing. -/
theorem countedPosition?_of_isBoundary {offset : Nat} (h : isBoundary offset source.text = true) :
    source.countedPosition? offset = some (source.position offset) := by
  rcases Nat.le_total offset (byteLength source.text) with hwithin | hwithin
  · obtain ⟨front, behind, htext, rfl⟩ := exists_append_of_isBoundary hwithin h
    exact countedPosition?_eq htext
  · rw [position_of_byteLength_le hwithin, ← countedPosition?_eq (List.append_nil _).symm]
    simp only [countedPosition?, Nat.min_eq_right hwithin, Nat.min_self]

/-! ## Positions determine offsets -/

/-- The lines and the columns before an offset can be counted in 32 bits. -/
def FitsAt (source : Source) (offset : Nat) : Prop :=
  Position.Fits (charsWithin offset source.text)

theorem fitsAt_iff (h : source.text = front ++ behind) :
    source.FitsAt (byteLength front) ↔ Position.Fits front := by
  rw [FitsAt, h, charsWithin_append]

/-- Places are ordered as offsets are. -/
def InOrder (source : Source) : Prop :=
  ∀ first second, isBoundary first source.text → isBoundary second source.text →
    first < second → second ≤ byteLength source.text →
    source.position first < source.position second

/-- Positions of a source determine offsets, as far as they fit. -/
structure PlacesOffsets (source : Source) : Prop where
  /-- An earlier offset has an earlier place. -/
  lt : ∀ first second, isBoundary first source.text → isBoundary second source.text →
    first < second → second ≤ byteLength source.text → source.FitsAt second →
    source.position first < source.position second
  /-- All places are in order only if all fit. -/
  inOrder_iff : source.InOrder ↔
    ∀ offset ≤ byteLength source.text, isBoundary offset source.text → source.FitsAt offset
  /-- An offset is recovered from its place if and only if that fits. -/
  offset_position_iff : ∀ offset ≤ byteLength source.text, isBoundary offset source.text →
    (source.offset (source.position offset) = offset ↔ source.FitsAt offset)
  /-- An offset beyond the end has the place of the end. -/
  beyond : ∀ offset, byteLength source.text ≤ offset →
    source.position offset = source.position (byteLength source.text)
  /-- Counting in slices comes to the same place. -/
  counted : ∀ offset, isBoundary offset source.text →
    source.countedPosition? offset = some (source.position offset)

theorem position_lt_position {first second : Nat} (hfirst : isBoundary first source.text = true)
    (hsecond : isBoundary second source.text = true) (hlt : first < second)
    (hwithin : second ≤ byteLength source.text) (hfits : source.FitsAt second) :
    source.position first < source.position second := by
  obtain ⟨front, behind, htext, rfl⟩ :=
    exists_append_of_isBoundary (hlt.le.trans hwithin) hfirst
  obtain ⟨longer, rest, hlonger, rfl⟩ := exists_append_of_isBoundary hwithin hsecond
  rw [fitsAt_iff hlonger] at hfits
  rw [position_of_append htext, position_of_append hlonger]
  obtain ⟨among, hamong, rfl⟩ := exists_append_of_byteLength_lt htext hlonger hlt
  exact Position.after_lt_after_append front hamong hfits

theorem InOrder.fitsAt (h : source.InOrder) {offset : Nat}
    (hwithin : offset ≤ byteLength source.text) (hboundary : isBoundary offset source.text = true) :
    source.FitsAt offset := by
  obtain ⟨front, behind, htext, rfl⟩ := exists_append_of_isBoundary hwithin hboundary
  rw [fitsAt_iff htext]
  by_contra hnot
  obtain ⟨first, among, rest, rfl, hamong, hlt⟩ := Position.exists_not_lt_of_not_fits hnot
  have hfirst : source.text = first ++ (among ++ rest ++ behind) := by simpa using htext
  have hsecond : source.text = (first ++ among) ++ (rest ++ behind) := by simpa using htext
  apply hlt
  rw [← position_of_append hfirst, ← position_of_append hsecond]
  have hpos := byteLength_pos hamong
  have hlength := byteLength_append first among
  have hend := congrArg byteLength hsecond
  rw [byteLength_append] at hend
  apply h
  · rw [hfirst]
    exact isBoundary_append _ _
  · rw [hsecond]
    exact isBoundary_append _ _
  · omega
  · omega

theorem position_determines_offset (source : Source) : PlacesOffsets source := by
  constructor
  case lt =>
    intro first second hfirst hsecond hlt hwithin hfits
    exact position_lt_position hfirst hsecond hlt hwithin hfits
  case inOrder_iff =>
    constructor
    · intro h offset hwithin hboundary
      exact h.fitsAt hwithin hboundary
    · intro h first second hfirst hsecond hlt hwithin
      exact position_lt_position hfirst hsecond hlt hwithin (h second hwithin hsecond)
  case offset_position_iff =>
    intro offset hwithin hboundary
    obtain ⟨front, behind, htext, rfl⟩ := exists_append_of_isBoundary hwithin hboundary
    rw [position_of_append htext, fitsAt_iff htext]
    exact offset_after_iff htext
  case beyond =>
    intro offset hoffset
    exact position_of_byteLength_le hoffset
  case counted =>
    intro offset hboundary
    exact countedPosition?_of_isBoundary hboundary

/-- Behind a line break of two characters, before and behind a character of two bytes. -/
theorem position_determines_offset_crlf :
    let source : Source := ⟨"test", "a\r\nxéy".toList⟩
    PlacesOffsets source ∧ source.position 4 = ⟨2, 2⟩ ∧ source.position 6 = ⟨2, 3⟩ ∧
      source.position 4 < source.position 6 ∧ source.offset ⟨2, 3⟩ = 6 := by
  intro source
  have hplaces := position_determines_offset source
  have hfits : source.FitsAt 6 := ⟨by decide, by decide⟩
  refine ⟨hplaces, rfl, rfl, ?_, ?_⟩
  · exact hplaces.lt 4 6 (by decide) (by decide) (by decide) (by decide) hfits
  · exact (hplaces.offset_position_iff 6 (by decide) (by decide)).mpr hfits

/-! ## Too many lines -/

theorem byteLength_replicate_newline (count : Nat) :
    byteLength (List.replicate count '\n') = count := by
  induction count with
  | zero => rfl
  | succ count ih =>
      have hsize : ('\n' : Char).utf8Size = 1 := rfl
      rw [List.replicate_succ, byteLength_cons, ih, hsize, Nat.add_comm]

theorem after_replicate_newline (count : Nat) :
    Position.after (List.replicate count '\n') = ⟨1 + .ofNat count, 1⟩ := by
  have hlines : IsLines (List.replicate count '\n') := by
    intro c hc
    exact List.eq_of_mem_replicate (List.mem_of_getLast? hc)
  rw [Position.after_of_isLines hlines, newlines, List.count_replicate_self]

/-- A text of `2 ^ 32` newlines ends where it starts. -/
theorem position_determines_offset_overflow :
    let source : Source := ⟨"test", List.replicate (2 ^ 32) '\n'⟩
    isBoundary 0 source.text ∧ isBoundary (2 ^ 32) source.text ∧
      byteLength source.text = 2 ^ 32 ∧ source.position 0 = ⟨1, 1⟩ ∧
      source.position (2 ^ 32) = ⟨1, 1⟩ ∧ ¬ source.position 0 < source.position (2 ^ 32) ∧
      source.offset (source.position (2 ^ 32)) = 0 := by
  intro source
  have hlength : byteLength source.text = 2 ^ 32 := byteLength_replicate_newline (2 ^ 32)
  have hstart : source.position 0 = ⟨1, 1⟩ :=
    position_of_append (List.nil_append source.text).symm
  have hend : source.position (2 ^ 32) = ⟨1, 1⟩ := by
    have hoverflow : (1 : UInt32) + .ofNat (2 ^ 32) = 1 := by decide
    rw [← hlength, position_of_append (List.append_nil source.text).symm]
    exact (after_replicate_newline (2 ^ 32)).trans (by rw [hoverflow])
  have hboundary := isBoundary_append source.text []
  rw [List.append_nil, hlength] at hboundary
  refine ⟨isBoundary_append [] source.text, hboundary, hlength, hstart, hend, ?_, ?_⟩
  · rw [hstart, hend, Position.lt_iff]
    decide
  · rw [hend]
    exact (offset_after_iff (List.nil_append source.text).symm).mpr ⟨by decide, by decide⟩

end Source

end Stacklet
