import Mathlib.Algebra.Order.Group.Nat
import Stacklet.Proofs.Token.Items
import Stacklet.Proofs.Token.Offsets

/-! # Counting lines while reading

Lines can be counted by a counter of 32 bits that goes up at some of the characters that are passed:
at a newline between tokens, in a string literal, in a block comment, or among the two characters
that end one. No other character that is passed is a newline. So the counter is right at the end of
every piece, whatever stood before it, and what a lexer yields carries the line that was counted.
-/

namespace Stacklet

namespace Counting

/-! ## The counter -/

/-- The counter behind a character at which lines are counted. -/
def tick (line : UInt32) (c : Char) : UInt32 :=
  if c = '\n' then line + 1 else line

/-- The counter behind a block comment, from behind its opening on. The comment ends with two
characters, if there are as many, and both are looked at. -/
def countComment (line : UInt32) : List Char → UInt32
  | [] => line
  | c :: rest =>
    if c = '*' ∨ rest.head? = some '/' then ((c :: rest).take 2).foldl tick line
    else countComment (tick line c) rest

/-- The counter behind a comment or a slash. -/
def countSlash (line : UInt32) : List Char → UInt32
  | '*' :: rest => countComment line rest
  | _ => line

/-- The counter behind a string literal, from behind its opening quote on. -/
def countString (quote : Char) (line : UInt32) : List Char → UInt32
  | [] => line
  | c :: rest => if c = quote then line else countString quote (tick line c) rest

/-- The counter behind the first piece of the text `c :: text`. -/
def countFirst (c : Char) (text : List Char) (line : UInt32) : UInt32 :=
  Cut.select c (countSlash line text) (fun _ => line) (tick line c) (countString c line text) line
    line line

/-- What is yielded for the rest of a text that starts at an offset, with lines counted on the way.
A token carries the line of the counter behind it, a fault that of the counter before it. -/
def itemsFrom (line : UInt32) (offset : Nat) : List Char → List Item
  | [] => [.token ⟨.endOfInput, ⟨line.toNat, offset, offset⟩⟩]
  | c :: text =>
    let cut := Cut.first c text
    let passed := countFirst c text line
    let stop := offset + byteLength cut.lexeme
    let rest := itemsFrom passed stop cut.rest
    match cut.piece with
    | .token read => .token ⟨read, ⟨passed.toNat, offset, stop⟩⟩ :: rest
    | .fault error => .fault ⟨error, ⟨line.toNat, offset, stop⟩⟩ :: rest
    | .blank | .stray _ => rest
termination_by text => text.length
decreasing_by
  have := Cut.first_rest_length c text
  simp only [List.length_cons]
  omega

/-- What is yielded for a whole text. -/
def items (text : List Char) : List Item :=
  itemsFrom 1 0 text

/-! ## Where newlines are -/

variable {line : UInt32} {text : List Char}

theorem foldl_tick_eq_self (h : ∀ c ∈ text, c ≠ '\n') : text.foldl tick line = line := by
  induction text with
  | nil => rfl
  | cons c text ih =>
      obtain ⟨hc, htext⟩ := List.forall_mem_cons.mp h
      rw [List.foldl_cons, tick, if_neg hc, ih htext]

/-- While it does not overflow, the counter counts the newlines. -/
theorem toNat_foldl_tick (h : line.toNat + newlines text < 2 ^ 32) :
    (text.foldl tick line).toNat = line.toNat + newlines text := by
  induction text generalizing line with
  | nil => rfl
  | cons c text ih =>
      rw [newlines_cons] at h ⊢
      have htick : (tick line c).toNat = line.toNat + if c = '\n' then 1 else 0 := by
        rw [tick]
        by_cases hc : c = '\n'
        · rw [if_pos hc] at h
          rw [if_pos hc, if_pos hc]
          exact @toNat_add_ofNat line 1 (by omega)
        · rw [if_neg hc, if_neg hc, Nat.add_zero]
      rw [List.foldl_cons, ih (by omega), htick, Nat.add_assoc]

theorem ne_newline_of_symbol? {c : Char} {symbol : Symbol} (h : Cut.symbol? c = some symbol) :
    c ≠ '\n' := by
  rintro rfl
  exact nomatch h

theorem ne_newline_of_isDigit {c : Char} (h : c.isDigit = true) : c ≠ '\n' := by
  rintro rfl
  exact nomatch h

theorem ne_newline_of_isNameChar {c : Char} (h : Cut.isNameChar c = true) : c ≠ '\n' := by
  rintro rfl
  have hnone : Cut.isNameChar '\n' = false := by decide
  exact nomatch h.symm.trans hnone

theorem ne_newline_of_quote {c : Char} (h : c = '"' ∨ c = '\'') : c ≠ '\n' := by
  rcases h with rfl | rfl <;> decide

/-- The closing of a comment is counted wherever it falls. -/
theorem countComment_eq {body rest : List Char} (h : Cut.CommentBody body rest) :
    countComment line (body ++ rest) = body.foldl tick line := by
  induction h generalizing line with
  | ended => rfl
  | endedAtStar => rfl
  | star c rest => rfl
  | slash c rest =>
      rw [List.cons_append, countComment, if_pos (.inr rfl)]
      rfl
  | @later c body rest hstar hslash hbody ih =>
      have hmore : ¬ (c = '*' ∨ (body ++ rest).head? = some '/') := not_or.mpr ⟨hstar, hslash⟩
      rw [List.cons_append, countComment, if_neg hmore, ih, List.foldl_cons]

theorem countString_closed {quote : Char} {content : List Char}
    (hcontent : ∀ c ∈ content, c ≠ quote) (rest : List Char) :
    countString quote line (content ++ quote :: rest) = content.foldl tick line := by
  induction content generalizing line with
  | nil => rw [List.nil_append, countString, if_pos rfl, List.foldl_nil]
  | cons c content ih =>
      obtain ⟨hc, hcontent⟩ := List.forall_mem_cons.mp hcontent
      rw [List.cons_append, countString, if_neg hc, ih hcontent, List.foldl_cons]

theorem countString_open {quote : Char} {content : List Char}
    (hcontent : ∀ c ∈ content, c ≠ quote) :
    countString quote line content = content.foldl tick line := by
  induction content generalizing line with
  | nil => rfl
  | cons c content ih =>
      obtain ⟨hc, hcontent⟩ := List.forall_mem_cons.mp hcontent
      rw [countString, if_neg hc, ih hcontent, List.foldl_cons]

theorem foldl_tick_cons {c : Char} (h : c ≠ '\n') (text : List Char) :
    (c :: text).foldl tick line = text.foldl tick line := by
  rw [List.foldl_cons, tick, if_neg h]

/-- At every lawful cut the counter goes up at the newlines of the lexeme. -/
theorem countFirst_eq {piece : Piece} {c : Char} {tail rest : List Char}
    (h : Cut.Lawful ⟨piece, c :: tail, rest⟩) :
    countFirst c (tail ++ rest) line = (c :: tail).foldl tick line := by
  generalize hlexeme : c :: tail = lexeme at h
  cases h with
  | symbol hsymbol hslash hequal =>
      cases hlexeme
      rw [countFirst, Cut.select_of_symbol? hsymbol hslash,
        foldl_tick_cons (ne_newline_of_symbol? hsymbol), List.foldl_nil]
  | @withEqual _ symbol _ rest hsymbol hlonger =>
      cases hlexeme
      have hslash : symbol ≠ .slash := by
        rintro rfl
        exact nomatch hlonger
      rw [countFirst, Cut.select_of_symbol? hsymbol hslash,
        foldl_tick_cons (ne_newline_of_symbol? hsymbol)]
      rfl
  | @slash rest hline hblock =>
      cases hlexeme
      have hnothing : countSlash line rest = line := by
        unfold countSlash
        split
        · exact absurd rfl hblock
        · rfl
      exact hnothing
  | @lineComment body rest hbody hrest =>
      cases hlexeme
      exact (foldl_tick_eq_self hbody).symm
  | @blockComment body rest hbody =>
      cases hlexeme
      exact countComment_eq hbody
  | blank rest hblank =>
      cases hlexeme
      rw [countFirst, Cut.select_of_isBlank hblank]
      rfl
  | string rest hquote hcontent =>
      cases hlexeme
      have hclose := ne_newline_of_quote hquote
      rw [countFirst, Cut.select_of_quote hquote, List.append_assoc, List.singleton_append,
        countString_closed hcontent, foldl_tick_cons hclose, List.foldl_append,
        foldl_tick_cons hclose, List.foldl_nil]
  | openString hquote hcontent =>
      cases hlexeme
      rw [countFirst, Cut.select_of_quote hquote, List.append_nil, countString_open hcontent,
        foldl_tick_cons (ne_newline_of_quote hquote)]
  | whole hfirst hdigits hrest hpoint =>
      cases hlexeme
      rw [countFirst, Cut.select_of_isDigit hfirst, foldl_tick_cons (ne_newline_of_isDigit hfirst),
        foldl_tick_eq_self fun c hc => ne_newline_of_isDigit (hdigits c hc)]
  | @decimal c d digits fraction rest hfirst hdigits hpoint hfraction hrest =>
      cases hlexeme
      have hpoint' : '.' ≠ '\n' := by decide
      rw [countFirst, Cut.select_of_isDigit hfirst, foldl_tick_cons (ne_newline_of_isDigit hfirst),
        List.foldl_append, foldl_tick_eq_self fun c hc => ne_newline_of_isDigit (hdigits c hc),
        foldl_tick_cons hpoint', foldl_tick_cons (ne_newline_of_isDigit hpoint),
        foldl_tick_eq_self fun c hc => ne_newline_of_isDigit (hfraction c hc)]
  | word hfirst htail hrest =>
      cases hlexeme
      have hname : Cut.isNameChar c = true := by simp [Cut.isNameChar, hfirst]
      rw [countFirst, Cut.select_of_isAlphabetic hfirst,
        foldl_tick_cons (ne_newline_of_isNameChar hname),
        foldl_tick_eq_self fun c hc => ne_newline_of_isNameChar (htail c hc)]
  | stray rest hsymbol hblank hquote hdigit hletter =>
      cases hlexeme
      have hnewline : c ≠ '\n' := by
        rintro rfl
        exact nomatch hblank
      rw [countFirst, Cut.select_of_none hsymbol hblank hquote hdigit hletter,
        foldl_tick_cons hnewline, List.foldl_nil]

/-! ## What is yielded -/

/-- A lawful cut in front of a text, one step of reading it. -/
theorem itemsFrom_of_lawful {piece : Piece} {lexeme rest : List Char}
    (h : Cut.Lawful ⟨piece, lexeme, rest⟩) (line : UInt32) (offset : Nat)
    (hcount : line.toNat + newlines lexeme < 2 ^ 32) :
    itemsFrom line offset (lexeme ++ rest) =
      (piece.item? (piece.span line.toNat offset lexeme)).toList ++
        itemsFrom (lexeme.foldl tick line) (offset + byteLength lexeme) rest := by
  obtain ⟨c, tail, rfl⟩ := List.exists_cons_of_ne_nil h.lexeme_ne_nil
  have hfirst : Cut.first c (tail ++ rest) = ⟨piece, c :: tail, rest⟩ := h.first_eq rfl
  rw [List.cons_append, itemsFrom, hfirst, countFirst_eq h]
  cases piece with
  | token read =>
      simp only [toNat_foldl_tick hcount]
      rfl
  | fault error => rfl
  | blank => rfl
  | stray c => rfl

/-- Counting on the way comes to the lines that the pieces of the text give. -/
theorem itemsFrom_eq (line : UInt32) (offset : Nat) (text : List Char)
    (hcount : line.toNat + newlines text < 2 ^ 32) :
    itemsFrom line offset text =
      Lexer.itemsOf line.toNat offset (pieces text) ++
        [.token ⟨.endOfInput, ⟨line.toNat + newlines text, offset + byteLength text,
          offset + byteLength text⟩⟩] := by
  induction hpieces : pieces text generalizing line offset text with
  | nil =>
      have hnil : textOfPieces [] = text := hpieces ▸ textOfPieces_pieces text
      subst hnil
      rw [textOfPieces_nil, itemsFrom]
      rfl
  | cons found more ih =>
      obtain ⟨piece, lexeme⟩ := found
      obtain ⟨rest, rfl, hlawful, hmore⟩ := lawful_of_pieces hpieces
      rw [newlines_append] at hcount ⊢
      have hlexeme : line.toNat + newlines lexeme < 2 ^ 32 := by omega
      have hline := toNat_foldl_tick hlexeme
      rw [itemsFrom_of_lawful hlawful line offset hlexeme,
        ih _ _ rest (by rw [hline]; omega) hmore, hline, byteLength_append, Nat.add_assoc,
        Nat.add_assoc, Lexer.itemsOf_cons, List.append_assoc]

end Counting

/-- How many newlines of its lexeme an item is behind: all if it is a token, none if it is a fault.
-/
def Item.passed : Item → (lexeme : List Char) → Nat
  | .token _, lexeme => newlines lexeme
  | .fault _, _ => 0

/-- Every item stands where its lexeme is, on the line that the newlines before make. -/
theorem Lexer.exists_lexeme_of_mem {line offset : Nat} {pieces : List (Piece × List Char)}
    {item : Item} (h : item ∈ itemsOf line offset pieces) :
    ∃ before lexeme behind, textOfPieces pieces = before ++ (lexeme ++ behind) ∧
      item.span = ⟨line + newlines before + item.passed lexeme, offset + byteLength before,
        offset + byteLength before + byteLength lexeme⟩ := by
  obtain ⟨before, piece, lexeme, behind, rfl, hitem⟩ := exists_piece_of_mem_itemsOf h
  refine ⟨textOfPieces before, lexeme, textOfPieces behind, ?_, ?_⟩
  · rw [textOfPieces_append, textOfPieces_cons]
  · cases piece <;> cases hitem <;> rfl

/-- An item of a source carries the right line. A token has the line on which it ends: the line of
its start and the newlines of its lexeme. A fault has the line on which it starts. -/
def Item.LineExact (source : Source) : Item → Prop
  | .token read =>
    read.span.line = 1 + newlines (charsWithin read.span.stop source.text) ∧
      read.span.line =
        (read.span.startIn source).line.toNat + newlines (read.span.lexemeIn source)
  | .fault error =>
    error.span.line = 1 + newlines (charsWithin error.span.start source.text) ∧
      error.span.line = (error.span.startIn source).line.toNat

theorem Item.lineExact_of_span {source : Source} {item : Item} {before lexeme behind : List Char}
    (hlines : newlines source.text < 2 ^ 32 - 1) (htext : source.text = before ++ (lexeme ++ behind))
    (hspan : item.span = ⟨1 + newlines before + item.passed lexeme, byteLength before,
      byteLength before + byteLength lexeme⟩) : item.LineExact source := by
  have hbefore : charsWithin (byteLength before) source.text = before :=
    htext ▸ charsWithin_append before (lexeme ++ behind)
  have hthrough : charsWithin (byteLength before + byteLength lexeme) source.text =
      before ++ lexeme := by
    rw [htext, ← List.append_assoc, ← byteLength_append]
    exact charsWithin_append (before ++ lexeme) behind
  have hlexeme : item.span.lexemeIn source = lexeme := by
    apply lexemeIn_of_slice?
    rw [hspan, htext]
    exact slice?_append before lexeme behind
  have hline : (Position.after before).line.toNat = 1 + newlines before := by
    apply Position.toNat_line_after
    rw [htext, newlines_append] at hlines
    omega
  cases item with
  | token read =>
      replace hspan : read.span = _ := hspan
      replace hlexeme : read.span.lexemeIn source = lexeme := hlexeme
      rw [LineExact, hlexeme, hspan]
      simp only [Span.startIn, Source.position, hbefore, hthrough, hline, newlines_append, passed,
        Nat.add_assoc, and_self]
  | fault error =>
      replace hspan : error.span = _ := hspan
      rw [LineExact, hspan]
      simp only [Span.startIn, Source.position, hbefore, hline, passed, Nat.add_zero, and_self]

/-- A lexer that counts lines with a counter of 32 bits while it passes characters yields what the
pieces of the text give, if the counter is large enough for the newlines of the text. And every item
carries the right line: a token and the end of input the one on which they end, a fault the one on
which it starts. -/
theorem Lexer.lines_counted (source : Source) (h : newlines source.text < 2 ^ 32 - 1) :
    Counting.items source.text = (ofText source.text).items ∧
      ∀ item ∈ (ofText source.text).items, item.LineExact source := by
  constructor
  · have hcount : (1 : UInt32).toNat + newlines source.text < 2 ^ 32 := by
      have hone : (1 : UInt32).toNat = 1 := rfl
      omega
    rw [Counting.items, Counting.itemsFrom_eq 1 0 source.text hcount, items_ofText, Nat.zero_add]
    rfl
  · intro item hitem
    rw [items_ofText, List.mem_append, List.mem_singleton] at hitem
    rcases hitem with hitem | rfl
    · obtain ⟨before, lexeme, behind, htext, hspan⟩ := exists_lexeme_of_mem hitem
      rw [textOfPieces_pieces] at htext
      rw [Nat.zero_add] at hspan
      exact Item.lineExact_of_span h htext hspan
    · exact @Item.lineExact_of_span source _ source.text [] [] h (by simp) rfl

/-- Newlines in a literal, among the characters that end a comment, and in an unreadable literal. -/
theorem Lexer.lines_counted_inside :
    newlines "'a\nb'/*\n/1'\\q\n'2".toList < 2 ^ 32 - 1 ∧
      (Counting.items "'a\nb'/*\n/1'\\q\n'2".toList).map (·.span.line) = [2, 3, 3, 4, 4] ∧
      ∀ item ∈ (ofText "'a\nb'/*\n/1'\\q\n'2".toList).items,
        item.LineExact ⟨"test", "'a\nb'/*\n/1'\\q\n'2".toList⟩ :=
  ⟨by decide, by decide +kernel,
    (lines_counted ⟨"test", "'a\nb'/*\n/1'\\q\n'2".toList⟩ (by decide)).2⟩

end Stacklet
