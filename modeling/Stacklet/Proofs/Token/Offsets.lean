import Stacklet.Proofs.Token.Cuts

/-! # Scanning by byte offsets

A text can be scanned with nothing but a byte offset into it. Every look at a character and every
lexeme is then a slice of the text, and there is no slice beyond the end of a text, from a later to
an earlier offset, or through a character. Scanning by offsets never asks for such a slice, and
comes to the pieces of the text.
-/

namespace Stacklet

/-! ## Slices -/

/-- The part of a text between two byte offsets, if both are in order, within the text and between
characters. -/
def slice? (text : List Char) (start stop : Nat) : Option (List Char) :=
  if start ≤ stop ∧ stop ≤ byteLength text ∧ isBoundary start text ∧ isBoundary stop text then
    some (charsWithin (stop - start) (charsBeyond start text))
  else none

theorem byteLength_pos {text : List Char} (h : text ≠ []) : 0 < byteLength text := by
  obtain ⟨c, rest, rfl⟩ := List.exists_cons_of_ne_nil h
  rw [byteLength_cons]
  have := c.utf8Size_pos
  omega

theorem charsWithin_zero (text : List Char) : charsWithin 0 text = [] := by
  cases text with
  | nil => rfl
  | cons c rest => rw [charsWithin, if_neg (Nat.not_le.mpr c.utf8Size_pos)]

theorem charsWithin_add (front behind : List Char) (offset : Nat) :
    charsWithin (byteLength front + offset) (front ++ behind) =
      front ++ charsWithin offset behind := by
  induction front with
  | nil => rw [byteLength_nil, Nat.zero_add, List.nil_append, List.nil_append]
  | cons c front ih =>
      have hle : c.utf8Size ≤ byteLength (c :: front) + offset := by
        rw [byteLength_cons]
        omega
      have hless : byteLength (c :: front) + offset - c.utf8Size = byteLength front + offset := by
        rw [byteLength_cons]
        omega
      rw [List.cons_append, charsWithin, if_pos hle, hless, ih, List.cons_append]

theorem charsWithin_append (front behind : List Char) :
    charsWithin (byteLength front) (front ++ behind) = front := by
  have hadd := charsWithin_add front behind 0
  rwa [Nat.add_zero, charsWithin_zero, List.append_nil] at hadd

theorem charsBeyond_append (front behind : List Char) :
    charsBeyond (byteLength front) (front ++ behind) = behind := by
  rw [charsBeyond, charsWithin_append, List.drop_left]

theorem isBoundary_append (front behind : List Char) :
    isBoundary (byteLength front) (front ++ behind) = true := by
  rw [isBoundary, charsWithin_append, byteLength_append, decide_eq_true_eq]
  exact (Nat.min_eq_left (Nat.le_add_right _ _)).symm

theorem slice?_append (front among behind : List Char) :
    slice? (front ++ (among ++ behind)) (byteLength front) (byteLength front + byteLength among) =
      some among := by
  have hstop := isBoundary_append (front ++ among) behind
  rw [byteLength_append, List.append_assoc] at hstop
  rw [slice?, if_pos, Nat.add_sub_cancel_left, charsBeyond_append, charsWithin_append]
  refine ⟨Nat.le_add_right _ _, ?_, isBoundary_append _ _, hstop⟩
  simp only [byteLength_append]
  omega

theorem charsWithin_prefix (offset : Nat) (text : List Char) : charsWithin offset text <+: text := by
  induction text generalizing offset with
  | nil => exact List.prefix_refl []
  | cons c rest ih =>
      rw [charsWithin]
      split
      next => exact List.cons_prefix_cons.mpr ⟨rfl, ih _⟩
      next => exact List.nil_prefix

theorem byteLength_charsWithin {offset : Nat} {text : List Char} (hwithin : offset ≤ byteLength text)
    (hboundary : isBoundary offset text = true) : byteLength (charsWithin offset text) = offset := by
  rw [isBoundary, decide_eq_true_eq] at hboundary
  omega

/-- A slice stands between the text before its start and the text behind its stop. -/
theorem exists_of_slice? {text among : List Char} {start stop : Nat}
    (h : slice? text start stop = some among) :
    ∃ front behind, text = front ++ (among ++ behind) ∧ byteLength front = start ∧
      byteLength front + byteLength among = stop := by
  rw [slice?, Option.ite_none_right_eq_some] at h
  obtain ⟨⟨hle, hwithin, hstart, hstop⟩, hamong⟩ := h
  obtain ⟨rest, htext⟩ := charsWithin_prefix start text
  obtain ⟨behind, hrest⟩ := charsWithin_prefix (stop - start) rest
  have hfront := byteLength_charsWithin (hle.trans hwithin) hstart
  have hthrough := byteLength_charsWithin hwithin hstop
  have hbeyond := charsBeyond_append (charsWithin start text) rest
  rw [htext, hfront] at hbeyond
  have hsplit := charsWithin_add (charsWithin start text) rest (stop - start)
  rw [htext, hfront, Nat.add_sub_cancel' hle] at hsplit
  rw [hbeyond, Option.some.injEq] at hamong
  subst hamong
  refine ⟨charsWithin start text, behind, ?_, hfront, ?_⟩
  · rw [hrest, htext]
  · rw [← byteLength_append, ← hsplit, hthrough]

/-- The slice of a span is its lexeme. -/
theorem lexemeIn_of_slice? {source : Source} {span : Span} {lexeme : List Char}
    (h : slice? source.text span.start span.stop = some lexeme) :
    span.lexemeIn source = lexeme := by
  rw [slice?, Option.ite_none_right_eq_some] at h
  exact Option.some.inj h.2

namespace Offsets

variable (text : List Char)

/-! ## Scanning -/

/-- The characters from an offset on. -/
def ahead? (offset : Nat) : Option (List Char) :=
  slice? text offset (byteLength text)

/-- Passes the character ahead, if there is one. -/
def advance (offset : Nat) : Option Nat := do
  return offset + byteLength ((← ahead? text offset).take 1)

/-- Passes characters of a class. -/
def skipWhile (p : Char → Bool) : (fuel : Nat) → (offset : Nat) → Option Nat
  | 0, _ => none
  | fuel + 1, offset => do
    match ← ahead? text offset with
    | [] => return offset
    | c :: _ => if p c then skipWhile p fuel (offset + c.utf8Size) else return offset

/-- Passes what is left of a block comment. -/
def skipComment : (fuel : Nat) → (offset : Nat) → Option Nat
  | 0, _ => none
  | fuel + 1, offset => do
    match ← ahead? text offset with
    | [] => return offset
    | c :: rest =>
      if c = '*' ∨ rest.head? = some '/' then advance text (← advance text offset)
      else skipComment fuel (offset + c.utf8Size)

/-- A string literal that starts at an offset, behind its first quote. Its content is cut out of its
lexeme. -/
def string (quote : Char) (start offset : Nat) : Option (Piece × Nat) := do
  let stop ← skipWhile text (· ≠ quote) (text.length + 1) offset
  if (← ahead? text stop).isEmpty then return (.fault .unterminatedString, stop)
  else
    let stop ← advance text stop
    let lexeme ← slice? text start stop
    let content ← slice? lexeme 1 (byteLength lexeme - 1)
    return (Cut.stringPiece content, stop)

/-- Passes the point and the digits behind it, when there are any. -/
def skipFraction (offset : Nat) : Option Nat := do
  match ← ahead? text offset with
  | '.' :: d :: _ =>
    if d.isDigit then skipWhile text Char.isDigit (text.length + 1) (← advance text offset)
    else return offset
  | _ => return offset

/-- A number literal that starts at an offset, behind its first digit. -/
def number (start offset : Nat) : Option (Piece × Nat) := do
  let stop ← skipFraction text (← skipWhile text Char.isDigit (text.length + 1) offset)
  let lexeme ← slice? text start stop
  let whole := lexeme.takeWhile (· ≠ '.')
  return (Cut.numberPiece whole (lexeme.drop (whole.length + 1)), stop)

/-- A keyword or a name that starts at an offset, behind its first letter. -/
def word (start offset : Nat) : Option (Piece × Nat) := do
  let stop ← skipWhile text Cut.isNameChar (text.length + 1) offset
  let lexeme ← slice? text start stop
  return (.token (Cut.wordToken lexeme), stop)

/-- A comment or a slash, behind its first character. -/
def slash (offset : Nat) : Option (Piece × Nat) := do
  match ← ahead? text offset with
  | '/' :: _ =>
    let stop ← skipWhile text (· ≠ '\n') (text.length + 1) (← advance text offset)
    return (.blank, stop)
  | '*' :: _ =>
    let stop ← skipComment text (text.length + 1) (← advance text offset)
    return (.blank, stop)
  | _ => return (.token (.symbol .slash), offset)

/-- A symbol of one or two characters, behind the first. -/
def operator (symbol : Symbol) (offset : Nat) : Option (Piece × Nat) := do
  match Cut.withEqual? symbol, ← ahead? text offset with
  | some longer, '=' :: _ => return (.token (.symbol longer), ← advance text offset)
  | _, _ => return (.token (.symbol symbol), offset)

/-- The piece that starts at an offset with a character, and the offset behind it. -/
def first (c : Char) (start : Nat) : Option (Piece × Nat) :=
  let offset := start + c.utf8Size
  Cut.select c (slash text offset) (operator text · offset) (some (.blank, offset))
    (string text c start offset) (number text start offset) (word text start offset)
    (some (.stray c, offset))

/-- The pieces from an offset on, each with the offsets where it starts and stops. -/
def pieces : (fuel : Nat) → (start : Nat) → Option (List (Piece × Nat × Nat))
  | 0, _ => none
  | fuel + 1, start => do
    match ← ahead? text start with
    | [] => return []
    | c :: _ =>
      let (piece, stop) ← first text c start
      return (piece, start, stop) :: (← pieces fuel stop)

/-- The pieces of a whole text. -/
def scan : Option (List (Piece × Nat × Nat)) :=
  pieces text (text.length + 1) 0

/-! ## No slice is missing -/

variable {text} {front run rest : List Char}

theorem ahead?_eq (h : text = front ++ rest) : ahead? text (byteLength front) = some rest := by
  have hslice := slice?_append front rest []
  rw [List.append_nil, ← byteLength_append, ← h] at hslice
  exact hslice

theorem advance_eq {c : Char} (h : text = front ++ c :: rest) :
    advance text (byteLength front) = some (byteLength (front ++ [c])) := by
  simp [advance, ahead?_eq h]

theorem advance_end (h : text = front) :
    advance text (byteLength front) = some (byteLength front) := by
  have hend : text = front ++ [] := h.trans (List.append_nil front).symm
  simp [advance, ahead?_eq hend]

theorem skipWhile_eq {p : Char → Bool} (h : text = front ++ (run ++ rest))
    (hrun : ∀ c ∈ run, p c = true) (hrest : ∀ c ∈ rest.head?, p c = false) {fuel : Nat}
    (hfuel : run.length < fuel) :
    skipWhile text p fuel (byteLength front) = some (byteLength (front ++ run)) := by
  induction run generalizing front fuel with
  | nil =>
      obtain ⟨fuel, rfl⟩ := Nat.exists_eq_succ_of_ne_zero (Nat.ne_zero_of_lt hfuel)
      rw [skipWhile, ahead?_eq h, List.append_nil]
      cases rest with
      | nil => rfl
      | cons c rest => simp [hrest c rfl]
  | cons c run ih =>
      obtain ⟨fuel, rfl⟩ := Nat.exists_eq_succ_of_ne_zero (Nat.ne_zero_of_lt hfuel)
      obtain ⟨hc, hrun⟩ := List.forall_mem_cons.mp hrun
      have hnext := @ih (front ++ [c]) (by simpa using h) hrun fuel (Nat.lt_of_succ_lt_succ hfuel)
      rw [skipWhile, ahead?_eq h]
      simpa [hc] using hnext

theorem skipWhile_length {p : Char → Bool} (h : text = front ++ (run ++ rest))
    (hrun : ∀ c ∈ run, p c = true) (hrest : ∀ c ∈ rest.head?, p c = false) :
    skipWhile text p (text.length + 1) (byteLength front) = some (byteLength (front ++ run)) := by
  refine skipWhile_eq h hrun hrest ?_
  rw [h, List.length_append, List.length_append]
  omega

theorem skipComment_eq (h : text = front ++ (run ++ rest)) (hbody : Cut.CommentBody run rest)
    {fuel : Nat} (hfuel : run.length < fuel) :
    skipComment text fuel (byteLength front) = some (byteLength (front ++ run)) := by
  induction hbody generalizing front fuel with
  | ended =>
      obtain ⟨fuel, rfl⟩ := Nat.exists_eq_succ_of_ne_zero (Nat.ne_zero_of_lt hfuel)
      simp [skipComment, ahead?_eq h]
  | endedAtStar =>
      obtain ⟨fuel, rfl⟩ := Nat.exists_eq_succ_of_ne_zero (Nat.ne_zero_of_lt hfuel)
      have hnext := @advance_end text (front ++ ['*']) (by simpa using h)
      rw [skipComment, ahead?_eq h]
      simpa [advance_eq h] using hnext
  | star c rest =>
      obtain ⟨fuel, rfl⟩ := Nat.exists_eq_succ_of_ne_zero (Nat.ne_zero_of_lt hfuel)
      have hnext := @advance_eq text (front ++ ['*']) rest c (by simpa using h)
      rw [skipComment, ahead?_eq h]
      simpa [advance_eq h] using hnext
  | slash c rest =>
      obtain ⟨fuel, rfl⟩ := Nat.exists_eq_succ_of_ne_zero (Nat.ne_zero_of_lt hfuel)
      have hnext := @advance_eq text (front ++ [c]) rest '/' (by simpa using h)
      rw [skipComment, ahead?_eq h]
      simpa [advance_eq h] using hnext
  | @later c body rest hstar hslash hbody ih =>
      obtain ⟨fuel, rfl⟩ := Nat.exists_eq_succ_of_ne_zero (Nat.ne_zero_of_lt hfuel)
      have hnext := @ih (front ++ [c]) (by simpa using h) fuel (Nat.lt_of_succ_lt_succ hfuel)
      have hmore : ¬ (c = '*' ∨ (body ++ rest).head? = some '/') := not_or.mpr ⟨hstar, hslash⟩
      rw [skipComment, ahead?_eq h]
      simp only [List.cons_append, Option.bind_eq_bind, Option.bind_some, if_neg hmore]
      simpa using hnext

theorem skipComment_length (h : text = front ++ (run ++ rest))
    (hbody : Cut.CommentBody run rest) :
    skipComment text (text.length + 1) (byteLength front) = some (byteLength (front ++ run)) := by
  refine skipComment_eq h hbody ?_
  rw [h, List.length_append, List.length_append]
  omega

/-! ## Every kind of piece -/

theorem slash_lineComment (h : text = front ++ '/' :: (run ++ rest))
    (hrun : ∀ c ∈ run, c ≠ '\n') (hrest : ∀ c ∈ rest.head?, c = '\n') :
    slash text (byteLength front) = some (.blank, byteLength (front ++ '/' :: run)) := by
  have hskip := @skipWhile_length text (front ++ ['/']) run rest (· ≠ '\n') (by simpa using h)
    (by simpa using hrun) (by simpa using hrest)
  rw [List.append_assoc, List.singleton_append] at hskip
  simp only [slash, ahead?_eq h, advance_eq h, hskip, Option.bind_eq_bind, Option.bind_some,
    Option.pure_def]

theorem slash_blockComment (h : text = front ++ '*' :: (run ++ rest))
    (hbody : Cut.CommentBody run rest) :
    slash text (byteLength front) = some (.blank, byteLength (front ++ '*' :: run)) := by
  have hskip := @skipComment_length text (front ++ ['*']) run rest (by simpa using h) hbody
  rw [List.append_assoc, List.singleton_append] at hskip
  simp only [slash, ahead?_eq h, advance_eq h, hskip, Option.bind_eq_bind, Option.bind_some,
    Option.pure_def]

theorem slash_symbol (h : text = front ++ rest) (hline : rest.head? ≠ some '/')
    (hblock : rest.head? ≠ some '*') :
    slash text (byteLength front) = some (.token (.symbol .slash), byteLength front) := by
  simp only [slash, ahead?_eq h, Option.bind_eq_bind, Option.bind_some]
  split
  · exact absurd rfl hline
  · exact absurd rfl hblock
  · rfl

theorem operator_withEqual {symbol longer : Symbol} (h : text = front ++ '=' :: rest)
    (hlonger : Cut.withEqual? symbol = some longer) :
    operator text symbol (byteLength front) =
      some (.token (.symbol longer), byteLength (front ++ ['='])) := by
  simp only [operator, ahead?_eq h, advance_eq h, hlonger, Option.bind_eq_bind, Option.bind_some,
    Option.pure_def]

theorem operator_symbol {symbol : Symbol} (h : text = front ++ rest)
    (hequal : Cut.withEqual? symbol = none ∨ rest.head? ≠ some '=') :
    operator text symbol (byteLength front) =
      some (.token (.symbol symbol), byteLength front) := by
  simp only [operator, ahead?_eq h, Option.bind_eq_bind, Option.bind_some]
  split
  next longer tail hlonger =>
    rcases hequal with hequal | hequal
    · exact nomatch hlonger.symm.trans hequal
    · exact absurd rfl hequal
  next => rfl

theorem slice?_lexeme {lexeme : List Char} (h : text = front ++ (lexeme ++ rest)) :
    slice? text (byteLength front) (byteLength (front ++ lexeme)) = some lexeme := by
  rw [h, byteLength_append]
  exact slice?_append front lexeme rest

/-- Quotes are one byte long, so the content of a string literal is a slice of its lexeme. -/
theorem slice?_content {quote : Char} (hquote : quote = '"' ∨ quote = '\'')
    (content : List Char) :
    slice? (quote :: (content ++ [quote])) 1
      (byteLength (quote :: (content ++ [quote])) - 1) = some content := by
  have hsize : byteLength [quote] = 1 := by
    rcases hquote with rfl | rfl <;> rfl
  have hslice := slice?_append [quote] content [quote]
  have hstop : byteLength (quote :: (content ++ [quote])) - 1 = 1 + byteLength content := by
    rw [← List.singleton_append, byteLength_append, byteLength_append, hsize]
    omega
  rwa [hsize, ← hstop] at hslice

theorem string_closed {quote : Char} {content : List Char}
    (hquote : quote = '"' ∨ quote = '\'')
    (h : text = front ++ (quote :: (content ++ [quote]) ++ rest))
    (hcontent : ∀ c ∈ content, c ≠ quote) :
    string text quote (byteLength front) (byteLength (front ++ [quote])) =
      some (Cut.stringPiece content, byteLength (front ++ quote :: (content ++ [quote]))) := by
  have hbody : text = (front ++ [quote]) ++ (content ++ quote :: rest) := by simpa using h
  have hskip := @skipWhile_length text (front ++ [quote]) content (quote :: rest) (· ≠ quote)
    hbody (by simpa using hcontent) (by simp)
  have hclose : text = (front ++ [quote] ++ content) ++ quote :: rest := by simpa using h
  have hstop : front ++ [quote] ++ content ++ [quote] = front ++ quote :: (content ++ [quote]) := by
    simp
  simp only [string, hskip, ahead?_eq hclose, advance_eq hclose, hstop, slice?_lexeme h,
    slice?_content hquote, Option.bind_eq_bind, Option.bind_some, Option.pure_def, List.isEmpty_cons,
    Bool.false_eq_true, if_false]

theorem string_open {quote : Char} {content : List Char} (h : text = front ++ quote :: content)
    (hcontent : ∀ c ∈ content, c ≠ quote) :
    string text quote (byteLength front) (byteLength (front ++ [quote])) =
      some (.fault .unterminatedString, byteLength (front ++ quote :: content)) := by
  have hskip := @skipWhile_length text (front ++ [quote]) content [] (· ≠ quote)
    (by simpa using h) (by simpa using hcontent) nofun
  rw [List.append_assoc, List.singleton_append] at hskip
  have hend : text = (front ++ quote :: content) ++ [] := by simpa using h
  simp only [string, hskip, ahead?_eq hend, Option.bind_eq_bind, Option.bind_some, Option.pure_def,
    List.isEmpty_nil, if_true]

theorem skipFraction_none (h : text = front ++ rest)
    (hpoint : ∀ c more, rest = '.' :: c :: more → c.isDigit = false) :
    skipFraction text (byteLength front) = some (byteLength front) := by
  simp only [skipFraction, ahead?_eq h, Option.bind_eq_bind, Option.bind_some]
  split
  next d more => simp [hpoint d more rfl]
  next => rfl

theorem skipFraction_some {d : Char} {fraction : List Char}
    (h : text = front ++ ('.' :: d :: fraction ++ rest)) (hpoint : d.isDigit = true)
    (hfraction : ∀ c ∈ fraction, c.isDigit = true)
    (hrest : ∀ c ∈ rest.head?, c.isDigit = false) :
    skipFraction text (byteLength front) = some (byteLength (front ++ '.' :: d :: fraction)) := by
  have hskip := @skipWhile_length text (front ++ ['.']) (d :: fraction) rest Char.isDigit
    (by simpa using h) (List.forall_mem_cons.mpr ⟨hpoint, hfraction⟩) hrest
  rw [List.append_assoc, List.singleton_append] at hskip
  simp only [skipFraction, ahead?_eq h, advance_eq h, hskip, List.cons_append, hpoint, if_true,
    Option.bind_eq_bind, Option.bind_some]

/-- A literal without a point is all whole part. -/
theorem takeWhile_digits {digits : List Char} (hdigits : ∀ c ∈ digits, c.isDigit = true)
    (fraction : List Char) :
    (digits ++ '.' :: fraction).takeWhile (· ≠ '.') = digits ∧
      digits.takeWhile (· ≠ '.') = digits := by
  have hrun : ∀ c ∈ digits, decide (c ≠ '.') = true := by
    intro c hc
    have hdigit := hdigits c hc
    rw [decide_eq_true_eq]
    rintro rfl
    exact nomatch hdigit
  refine ⟨Cut.takeWhile_run hrun (by simp), ?_⟩
  have hall := Cut.takeWhile_run hrun (nofun : ∀ c ∈ ([] : List Char).head?, _)
  rwa [List.append_nil] at hall

theorem number_whole {c : Char} {digits : List Char} (h : text = front ++ (c :: digits ++ rest))
    (hfirst : c.isDigit = true) (hdigits : ∀ c ∈ digits, c.isDigit = true)
    (hrest : ∀ c ∈ rest.head?, c.isDigit = false)
    (hpoint : ∀ c more, rest = '.' :: c :: more → c.isDigit = false) :
    number text (byteLength front) (byteLength (front ++ [c])) =
      some (Cut.numberPiece (c :: digits) [], byteLength (front ++ c :: digits)) := by
  have hskip := @skipWhile_length text (front ++ [c]) digits rest Char.isDigit (by simpa using h)
    hdigits hrest
  rw [List.append_assoc, List.singleton_append] at hskip
  have hfraction := @skipFraction_none text (front ++ c :: digits) rest (by simpa using h) hpoint
  have hwhole := (takeWhile_digits (List.forall_mem_cons.mpr ⟨hfirst, hdigits⟩) []).2
  have hdrop : (c :: digits).drop ((c :: digits).length + 1) = [] := by simp
  simp only [number, hskip, hfraction, slice?_lexeme h, hwhole, hdrop, Option.bind_eq_bind,
    Option.bind_some, Option.pure_def]

theorem number_decimal {c d : Char} {digits fraction : List Char}
    (h : text = front ++ (c :: (digits ++ '.' :: d :: fraction) ++ rest))
    (hfirst : c.isDigit = true) (hdigits : ∀ c ∈ digits, c.isDigit = true)
    (hpoint : d.isDigit = true) (hfraction : ∀ c ∈ fraction, c.isDigit = true)
    (hrest : ∀ c ∈ rest.head?, c.isDigit = false) :
    number text (byteLength front) (byteLength (front ++ [c])) =
      some (Cut.numberPiece (c :: digits) (d :: fraction),
        byteLength (front ++ c :: (digits ++ '.' :: d :: fraction))) := by
  have hskip := @skipWhile_length text (front ++ [c]) digits ('.' :: d :: fraction ++ rest)
    Char.isDigit (by simpa using h) hdigits (by simp)
  rw [List.append_assoc, List.singleton_append] at hskip
  have hbehind := @skipFraction_some text (front ++ c :: digits) rest d fraction
    (by simpa using h) hpoint hfraction hrest
  rw [List.append_assoc, List.cons_append] at hbehind
  have hwhole := (takeWhile_digits (List.forall_mem_cons.mpr ⟨hfirst, hdigits⟩) (d :: fraction)).1
  rw [List.cons_append] at hwhole
  have hdrop : (c :: (digits ++ '.' :: d :: fraction)).drop ((c :: digits).length + 1) =
      d :: fraction := by
    simp
  simp only [number, hskip, hbehind, slice?_lexeme h, hwhole, hdrop, Option.bind_eq_bind,
    Option.bind_some, Option.pure_def]

theorem word_eq {c : Char} {tail : List Char} (h : text = front ++ (c :: tail ++ rest))
    (htail : ∀ c ∈ tail, Cut.isNameChar c = true)
    (hrest : ∀ c ∈ rest.head?, Cut.isNameChar c = false) :
    word text (byteLength front) (byteLength (front ++ [c])) =
      some (.token (Cut.wordToken (c :: tail)), byteLength (front ++ c :: tail)) := by
  have hskip := @skipWhile_length text (front ++ [c]) tail rest Cut.isNameChar (by simpa using h)
    htail hrest
  rw [List.append_assoc, List.singleton_append] at hskip
  simp only [word, hskip, slice?_lexeme h, Option.bind_eq_bind, Option.bind_some, Option.pure_def]

/-! ## All pieces -/

/-- At a lawful cut the piece is found, and the offset behind it. -/
theorem first_of_lawful {piece : Piece} {c : Char} {tail : List Char}
    (hlawful : Cut.Lawful ⟨piece, c :: tail, rest⟩) (h : text = front ++ (c :: tail ++ rest)) :
    first text c (byteLength front) = some (piece, byteLength (front ++ c :: tail)) := by
  have hoffset : byteLength front + c.utf8Size = byteLength (front ++ [c]) := by simp
  have hbehind : text = (front ++ [c]) ++ (tail ++ rest) := by simpa using h
  have hstop : front ++ [c] ++ tail = front ++ c :: tail := by simp
  simp only [first, hoffset]
  generalize hlexeme : c :: tail = lexeme at hlawful
  cases hlawful with
  | symbol hsymbol hslash hequal =>
      cases hlexeme
      rw [Cut.select_of_symbol? hsymbol hslash]
      exact operator_symbol hbehind hequal
  | @withEqual _ symbol _ rest hsymbol hlonger =>
      cases hlexeme
      have hslash : symbol ≠ .slash := by
        rintro rfl
        exact nomatch hlonger
      rw [Cut.select_of_symbol? hsymbol hslash, ← hstop]
      exact operator_withEqual hbehind hlonger
  | slash hline hblock =>
      cases hlexeme
      exact slash_symbol hbehind hline hblock
  | lineComment hbody hrest =>
      cases hlexeme
      rw [← hstop]
      exact slash_lineComment hbehind hbody hrest
  | blockComment hbody =>
      cases hlexeme
      rw [← hstop]
      exact slash_blockComment hbehind hbody
  | blank rest hblank =>
      cases hlexeme
      exact Cut.select_of_isBlank hblank
  | string rest hquote hcontent =>
      cases hlexeme
      rw [Cut.select_of_quote hquote]
      exact string_closed hquote h hcontent
  | openString hquote hcontent =>
      cases hlexeme
      rw [Cut.select_of_quote hquote]
      rw [List.append_nil] at h
      exact string_open h hcontent
  | whole hfirst hdigits hrest hpoint =>
      cases hlexeme
      rw [Cut.select_of_isDigit hfirst]
      exact number_whole h hfirst hdigits hrest hpoint
  | decimal hfirst hdigits hpoint hfraction hrest =>
      cases hlexeme
      rw [Cut.select_of_isDigit hfirst]
      exact number_decimal h hfirst hdigits hpoint hfraction hrest
  | word hfirst htail hrest =>
      cases hlexeme
      rw [Cut.select_of_isAlphabetic hfirst]
      exact word_eq h htail hrest
  | stray rest hsymbol hblank hquote hdigit hletter =>
      cases hlexeme
      exact Cut.select_of_none hsymbol hblank hquote hdigit hletter

/-- A piece with the offsets where it starts and stops. -/
def ofLocated (piece : Located Piece) : Piece × Nat × Nat :=
  (piece.value, piece.span.start, piece.span.stop)

theorem pieces_eq (h : text = front ++ rest) (line : Nat) {fuel : Nat} (hfuel : rest.length < fuel) :
    pieces text fuel (byteLength front) =
      some ((locate line (byteLength front) (Stacklet.pieces rest)).map ofLocated) := by
  induction hpieces : Stacklet.pieces rest generalizing front rest line fuel with
  | nil =>
      obtain ⟨fuel, rfl⟩ := Nat.exists_eq_succ_of_ne_zero (Nat.ne_zero_of_lt hfuel)
      have hnil : textOfPieces [] = rest := hpieces ▸ textOfPieces_pieces rest
      obtain rfl : [] = rest := hnil
      simp [pieces, ahead?_eq h, locate]
  | cons found more ih =>
      obtain ⟨piece, lexeme⟩ := found
      obtain ⟨fuel, rfl⟩ := Nat.exists_eq_succ_of_ne_zero (Nat.ne_zero_of_lt hfuel)
      obtain ⟨rest, rfl, hlawful, hmore⟩ := lawful_of_pieces hpieces
      obtain ⟨c, tail, rfl⟩ := List.exists_cons_of_ne_nil hlawful.lexeme_ne_nil
      have hlength : rest.length < fuel := by
        simp only [List.length_append, List.length_cons] at hfuel
        omega
      have hnext := @ih (front ++ c :: tail) rest (by simpa using h) (line + newlines (c :: tail))
        fuel hlength hmore
      have hahead : ahead? text (byteLength front) = some (c :: (tail ++ rest)) := ahead?_eq h
      simp only [pieces, hahead, first_of_lawful hlawful h, hnext, Option.bind_eq_bind,
        Option.bind_some, Option.pure_def, locate, ← byteLength_append, List.map_cons, ofLocated,
        Piece.span]

/-- Scanning by offsets comes to the pieces of the text in their places. -/
theorem scan_eq (text : List Char) :
    scan text = some ((locate 1 0 (Stacklet.pieces text)).map ofLocated) :=
  pieces_eq (List.nil_append text).symm 1 (Nat.lt_succ_self _)

end Offsets

end Stacklet
