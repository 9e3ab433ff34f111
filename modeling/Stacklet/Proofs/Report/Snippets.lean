import Mathlib.Data.List.GetD
import Stacklet.Proofs.Source.Positions
import Stacklet.Report

/-! # Snippets

The text before a lexeme consists of whole lines and the beginning of one more. A snippet shows the
line on which the lexeme starts, with as many spaces under it as there are characters before the
lexeme, and as many carets behind those as the lexeme has characters on that line.
-/

namespace Stacklet

/-! ## Lines -/

/-- A text before its first line break, which is a newline, or a carriage return and a newline. -/
def beforeBreak : List Char → List Char
  | [] => []
  | '\n' :: _ => []
  | '\r' :: '\n' :: _ => []
  | c :: rest => c :: beforeBreak rest

section

variable {c : Char} {rest : List Char}

theorem beforeBreak_cons (hc : c ≠ '\n') (hbreak : c = '\r' → rest.head? ≠ some '\n') :
    beforeBreak (c :: rest) = c :: beforeBreak rest := by
  rw [beforeBreak]
  · exact hc
  · rintro more rfl rfl
    exact hbreak rfl rfl

theorem lines_cons (hc : c ≠ '\n') (hbreak : c = '\r' → rest.head? ≠ some '\n') :
    lines (c :: rest) = (c :: (lines rest).headD []) :: (lines rest).tail := by
  rw [lines]
  · cases lines rest <;> rfl
  · exact hc
  · rintro more rfl rfl
    exact hbreak rfl rfl

end

theorem headD_lines (text : List Char) : (lines text).headD [] = beforeBreak text := by
  fun_induction beforeBreak text with
  | case1 => rfl
  | case2 rest => simp [lines]
  | case3 rest => simp [lines]
  | case4 c rest hc hbreak ih =>
      have hcons : lines (c :: rest) = (c :: (lines rest).headD []) :: (lines rest).tail := by
        refine lines_cons hc fun hreturn hnewline => ?_
        obtain ⟨more, hmore⟩ := List.head?_eq_some_iff.mp hnewline
        exact hbreak more hreturn hmore
      rw [hcons, List.headD_cons, ih]

theorem beforeBreak_of_notMem {text : List Char} (h : '\n' ∉ text) : beforeBreak text = text := by
  induction text with
  | nil => rfl
  | cons c rest ih =>
      obtain ⟨hc, hrest⟩ := not_or.mp (mt List.mem_cons.mpr h)
      rw [beforeBreak_cons (Ne.symm hc), ih hrest]
      rintro - hnewline
      exact hrest (List.mem_of_head? hnewline)

/-- Characters that are no newlines stay before the break, if they do not end with the half of one.
-/
theorem beforeBreak_append {front behind : List Char} (hfront : '\n' ∉ front)
    (hbehind : behind.head? ≠ some '\n') :
    beforeBreak (front ++ behind) = front ++ beforeBreak behind := by
  induction front with
  | nil => rfl
  | cons c rest ih =>
      obtain ⟨hc, hrest⟩ := not_or.mp (mt List.mem_cons.mpr hfront)
      rw [List.cons_append, beforeBreak_cons (Ne.symm hc), ih hrest, List.cons_append]
      rintro - hnewline
      cases rest with
      | nil => exact hbehind hnewline
      | cons d rest => exact hrest (List.mem_of_head? hnewline)

/-- What is behind a break does not matter for what is before it. -/
theorem beforeBreak_append_of_mem {front : List Char} (h : '\n' ∈ front) (behind : List Char) :
    beforeBreak (front ++ behind) = beforeBreak front := by
  fun_induction beforeBreak front with
  | case1 => cases h
  | case2 rest => simp [beforeBreak]
  | case3 rest => simp [beforeBreak]
  | case4 c rest hc hbreak ih =>
      have hrest : '\n' ∈ rest := (List.mem_cons.mp h).resolve_left (Ne.symm hc)
      rw [List.cons_append, beforeBreak_cons hc, ih hrest]
      intro hreturn hnewline
      obtain ⟨d, more, rfl⟩ := List.exists_cons_of_ne_nil (List.ne_nil_of_mem hrest)
      exact hbreak more hreturn (congrArg (· :: more) (Option.some.inj hnewline))

theorem length_beforeBreak_le (text : List Char) : (beforeBreak text).length ≤ text.length := by
  fun_induction beforeBreak text with
  | case4 c rest hc hbreak ih => exact Nat.succ_le_succ ih
  | _ => exact Nat.zero_le _

theorem lines_ne_nil {text : List Char} (h : text ≠ []) : lines text ≠ [] := by
  fun_cases lines text with
  | case1 => exact absurd rfl h
  | _ => exact nofun

/-- Whole lines in front of a text are lines of their own. -/
theorem lines_append {whole : List Char} (h : IsLines whole) (rest : List Char) :
    ∃ first, lines (whole ++ rest) = first ++ lines rest ∧ first.length = newlines whole := by
  have hsuffix (front : List Char) {tail : List Char} (hwhole : IsLines (front ++ tail)) :
      IsLines tail := by
    intro last hlast
    apply hwhole
    rw [List.getLast?_append, hlast]
    rfl
  induction whole using lines.induct with
  | case1 => exact ⟨[], rfl, rfl⟩
  | case2 more ih =>
      obtain ⟨first, hfirst, hcount⟩ := ih (hsuffix ['\n'] h)
      exact ⟨[] :: first, by simp [lines, hfirst], by simp [newlines, hcount]⟩
  | case3 more ih =>
      obtain ⟨first, hfirst, hcount⟩ := ih (hsuffix ['\r', '\n'] h)
      exact ⟨[] :: first, by simp [lines, hfirst], by simp [newlines, hcount]⟩
  | case4 c more hc hbreak hnone =>
      obtain rfl : more = [] := by_contra fun hmore => lines_ne_nil hmore hnone
      exact absurd (h c rfl) hc
  | case5 c more hc hbreak line later hlines ih =>
      -- The first line of the rest goes on to the left.
      have hmore : more ≠ [] := fun hnil => List.cons_ne_nil _ _ (hlines.symm.trans (hnil ▸ rfl))
      have hrest : IsLines more := hsuffix [c] h
      obtain ⟨first, hfirst, hcount⟩ := ih hrest
      have hpos : 0 < first.length := hcount ▸ newlines_pos (hrest.newline_mem hmore)
      obtain ⟨next, first, rfl⟩ := List.exists_cons_of_length_pos hpos
      obtain ⟨d, more, rfl⟩ := List.exists_cons_of_ne_nil hmore
      refine ⟨(c :: next) :: first, ?_, ?_⟩
      · have hcons : lines (c :: (d :: more ++ rest)) = _ := lines_cons hc fun hreturn hnewline =>
          hbreak more hreturn (congrArg (· :: more) (Option.some.inj hnewline))
        rw [List.cons_append, hcons, hfirst]
        rfl
      · rw [List.length_cons] at hcount ⊢
        rw [hcount, newlines, newlines, List.count_cons_of_ne hc]

theorem Source.line_of_append {source : Source} {whole rest : List Char}
    (h : source.text = whole ++ rest) (hwhole : IsLines whole) :
    source.line (1 + newlines whole) = beforeBreak rest := by
  obtain ⟨first, hfirst, hcount⟩ := lines_append hwhole rest
  rw [Source.line, h, hfirst, Nat.add_sub_cancel_left, ← hcount, ← headD_lines,
    List.getD_append_right _ _ _ _ (Nat.le_refl _), Nat.sub_self]
  cases lines rest <;> rfl

/-! ## Snippets -/

/-- A span of a lexeme: the text consists of whole lines, the beginning of one more, the lexeme, and
what is behind it. The beginning of the line does not end at a break. -/
structure Span.Parts (source : Source) (span : Span) (whole lead lexeme behind : List Char) :
    Prop where
  text_eq : source.text = whole ++ (lead ++ (lexeme ++ behind))
  isLines : IsLines whole
  lead_notMem : '\n' ∉ lead
  head?_ne : (lexeme ++ behind).head? ≠ some '\n'
  start_eq : span.start = byteLength (whole ++ lead)
  stop_eq : span.stop = byteLength (whole ++ (lead ++ lexeme))

/-- A span with a row that can be counted in 32 bits, and a column and a lexeme that are no wider
than a row can be. -/
structure Span.Bounded (source : Source) (span : Span) : Prop where
  row : newlines (charsWithin span.start source.text) < 2 ^ 32 - 1
  column : 1 + (lastLine (charsWithin span.start source.text)).length ≤ 65535
  lexeme : (span.lexemeIn source).length ≤ 65535

theorem length_charsWithin_le (offset : Nat) (text : List Char) :
    (charsWithin offset text).length ≤ offset := by
  induction text generalizing offset with
  | nil => exact Nat.zero_le _
  | cons c rest ih =>
      have hsize := c.utf8Size_pos
      rw [charsWithin]
      split
      next =>
        have hrest := ih (offset - c.utf8Size)
        rw [List.length_cons]
        omega
      next => exact Nat.zero_le _

/-- In the first bytes of a text only a column can be too wide. -/
theorem Span.bounded_of_stop_le {source : Source} {span : Span} (hle : span.start ≤ span.stop)
    (hstop : span.stop ≤ 65535)
    (hcolumn : 1 + (lastLine (charsWithin span.start source.text)).length ≤ 65535) :
    span.Bounded source := by
  have hstart := length_charsWithin_le span.start source.text
  have hrow : newlines (charsWithin span.start source.text) ≤ _ := List.count_le_length
  have hlexeme : (span.lexemeIn source).length ≤ span.stop - span.start :=
    length_charsWithin_le _ _
  exact ⟨by omega, hcolumn, by omega⟩

namespace Span.Parts

variable {source : Source} {span : Span} {whole lead lexeme behind : List Char}

theorem charsWithin_start (h : span.Parts source whole lead lexeme behind) :
    charsWithin span.start source.text = whole ++ lead := by
  rw [h.start_eq, h.text_eq, ← List.append_assoc, charsWithin_append]

/-- The text up to the end of the lexeme, and what is behind it. -/
theorem text_eq_append (h : span.Parts source whole lead lexeme behind) :
    source.text = (whole ++ (lead ++ lexeme)) ++ behind := by
  simp only [h.text_eq, List.append_assoc]

theorem charsWithin_stop (h : span.Parts source whole lead lexeme behind) :
    charsWithin span.stop source.text = whole ++ (lead ++ lexeme) := by
  rw [h.stop_eq, h.text_eq_append, charsWithin_append]

theorem lexemeIn_eq (h : span.Parts source whole lead lexeme behind) :
    span.lexemeIn source = lexeme := by
  have hslice := slice?_append (whole ++ lead) lexeme behind
  apply lexemeIn_of_slice?
  rw [← byteLength_append, List.append_assoc, List.append_assoc] at hslice
  rw [h.text_eq, h.start_eq, h.stop_eq, hslice]

theorem isBoundary_start (h : span.Parts source whole lead lexeme behind) :
    isBoundary span.start source.text = true := by
  rw [h.start_eq, h.text_eq, ← List.append_assoc]
  exact isBoundary_append _ _

theorem isBoundary_stop (h : span.Parts source whole lead lexeme behind) :
    isBoundary span.stop source.text = true := by
  rw [h.stop_eq, h.text_eq_append]
  exact isBoundary_append _ _

/-- The line on which the lexeme starts is its beginning and what is behind that. -/
theorem line_eq (h : span.Parts source whole lead lexeme behind) :
    source.line (1 + newlines whole) = lead ++ beforeBreak (lexeme ++ behind) := by
  rw [Source.line_of_append h.text_eq h.isLines, beforeBreak_append h.lead_notMem h.head?_ne]

section Bounded

variable (h : span.Parts source whole lead lexeme behind) (hbounded : span.Bounded source)
include h hbounded

theorem bounds :
    newlines whole < 2 ^ 32 - 1 ∧ 1 + lead.length ≤ 65535 ∧ lexeme.length ≤ 65535 := by
  have hrow := hbounded.row
  have hcolumn := hbounded.column
  have hlexeme := hbounded.lexeme
  rw [h.charsWithin_start, newlines_append_of_notMem whole h.lead_notMem] at hrow
  rw [h.charsWithin_start, lastLine_append h.isLines h.lead_notMem] at hcolumn
  rw [h.lexemeIn_eq] at hlexeme
  exact ⟨hrow, hcolumn, hlexeme⟩

/-- The start has the line and the column of the lexeme. -/
theorem startIn_eq :
    (span.startIn source).line.toNat = 1 + newlines whole ∧
      (span.startIn source).column.toNat = 1 + lead.length := by
  obtain ⟨hrow, hcolumn, -⟩ := h.bounds hbounded
  rw [startIn, Source.position, h.charsWithin_start,
    Position.after_append h.isLines h.lead_notMem]
  exact ⟨toNat_one_add_ofNat (by omega), toNat_one_add_ofNat (by omega)⟩

theorem stopIn_line_ne (hmem : '\n' ∈ lexeme) :
    (span.stopIn source).line ≠ (span.startIn source).line := by
  obtain ⟨hrow, -, hlexeme⟩ := h.bounds hbounded
  have hpos := newlines_pos hmem
  have hle : newlines lexeme ≤ lexeme.length := List.count_le_length
  rw [ne_eq, ← UInt32.toNat_inj, (h.startIn_eq hbounded).1, stopIn, Source.position,
    h.charsWithin_stop, Position.after, newlines_append, newlines_append,
    newlines_of_notMem h.lead_notMem, Nat.zero_add, UInt32.toNat_add, UInt32.toNat_one,
    UInt32.toNat_ofNat']
  omega

/-- There is a caret for every character that the lexeme has on its first line, and at least one. -/
theorem carets_eq : Report.carets source span = max 1 (beforeBreak lexeme).length := by
  obtain ⟨-, hcolumn, hlexeme⟩ := h.bounds hbounded
  obtain ⟨hline, hstart⟩ := h.startIn_eq hbounded
  by_cases hmem : '\n' ∈ lexeme
  · -- The carets go on to the end of the line, which the lexeme breaks.
    have hle := length_beforeBreak_le lexeme
    simp only [Report.carets, if_neg (h.stopIn_line_ne hbounded hmem), hline, hstart, h.line_eq,
      beforeBreak_append_of_mem hmem, List.length_append]
    rw [UInt32.add_comm, toNat_one_add_ofNat (by omega)]
    omega
  · have hpart : '\n' ∉ lead ++ lexeme := by simp [h.lead_notMem, hmem]
    have hstop := Position.after_append h.isLines hpart
    have hsame : (span.stopIn source).line = (span.startIn source).line := by
      rw [stopIn, startIn, Source.position, Source.position, h.charsWithin_stop,
        h.charsWithin_start, hstop, Position.after_append h.isLines h.lead_notMem]
    have hend : (span.stopIn source).column = 1 + .ofNat (lead.length + lexeme.length) := by
      rw [stopIn, Source.position, h.charsWithin_stop, hstop, List.length_append]
    simp only [Report.carets, if_pos hsame, hstart, hend, beforeBreak_of_notMem hmem]
    rw [toNat_one_add_ofNat (by omega)]
    omega

end Bounded

end Span.Parts

/-- A span that covers a lexeme of a source, which does not begin with a newline. -/
def Span.IsLexeme (source : Source) (span : Span) : Prop :=
  ∃ whole lead lexeme behind, span.Parts source whole lead lexeme behind

/-- A span lies between the text before a lexeme and the text behind it. -/
theorem Span.isLexeme_of_append {source : Source} {span : Span} {before lexeme behind : List Char}
    (htext : source.text = before ++ (lexeme ++ behind)) (hstart : span.start = byteLength before)
    (hstop : span.stop = byteLength before + byteLength lexeme)
    (hhead : (lexeme ++ behind).head? ≠ some '\n') : span.IsLexeme source := by
  obtain ⟨whole, lead, rfl, hwhole, hlead⟩ := exists_isLines_append before
  refine ⟨whole, lead, lexeme, behind, ?_, hwhole, hlead, hhead, hstart, ?_⟩
  · rw [htext, List.append_assoc]
  · rw [hstop, ← byteLength_append, List.append_assoc]

namespace Report

/-- The snippet of a span underlines a lexeme of the source. Its rows are the place at which the
lexeme starts, an empty one, the line on which it starts, and the carets. As many characters stand
before the line as before the spaces under it. -/
def Underlines (source : Source) (span : Span) : Prop :=
  ∃ whole lead lexeme behind, span.Parts source whole lead lexeme behind ∧
    let row := 1 + newlines whole
    let column := 1 + lead.length
    let start := s!"{row}:{column}"
    let place := s!"{source.name}:{start}"
    let number := toString row
    let margin := repeated number.length ' '
    let line := lead ++ beforeBreak (lexeme ++ behind)
    let spaces := repeated (column - 1) ' '
    let carets := repeated (max 1 (beforeBreak lexeme).length) '^'
    source.countedPosition? span.start = some (span.startIn source) ∧
      source.countedPosition? span.stop = some (span.stopIn source) ∧
      (span.startIn source).line.toNat = row ∧ (span.startIn source).column.toNat = column ∧
      span.lexemeIn source = lexeme ∧ source.line row = line ∧
      snippet source span =
        s!" --> {place}\n" ++
        s!"{margin} |\n" ++
        s!"{number} | {String.ofList line}\n" ++
        s!"{margin} | {spaces ++ carets}\n"

theorem underlines_of_isLexeme {source : Source} {span : Span} (h : span.IsLexeme source)
    (hbounded : span.Bounded source) : Underlines source span := by
  obtain ⟨whole, lead, lexeme, behind, h⟩ := h
  obtain ⟨hline, hcolumn⟩ := h.startIn_eq hbounded
  refine ⟨whole, lead, lexeme, behind, h, ?_, ?_, hline, hcolumn, h.lexemeIn_eq, h.line_eq, ?_⟩
  · exact Source.countedPosition?_of_isBoundary h.isBoundary_start
  · exact Source.countedPosition?_of_isBoundary h.isBoundary_stop
  · have hnumber : toString (span.startIn source).line = toString (1 + newlines whole) :=
      congrArg toString hline
    have hspaces : toString (span.startIn source).column = toString (1 + lead.length) :=
      congrArg toString hcolumn
    simp only [snippet, Span.renderIn, Position.render, hnumber, hspaces, hline, hcolumn,
      h.line_eq, h.carets_eq hbounded]

end Report

end Stacklet
