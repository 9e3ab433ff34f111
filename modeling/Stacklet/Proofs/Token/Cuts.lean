import Mathlib.Data.List.TakeWhile
import Mathlib.Data.List.Infix
import Stacklet.Token.Lexer

/-! # Lexemes

What the first piece of a text is, said without scanning: each kind of piece has a shape and a
condition on what stands behind it. A piece that is one in some text is one, too, before any shorter
rest of that text, and what is no unclosed string literal also before a blank.
-/

namespace Stacklet

/-- Pieces that a lexer passes over. -/
def Piece.isSkipped : Piece → Bool
  | .blank | .stray _ => true
  | .token _ | .fault _ => false

namespace Cut

/-- A block comment behind its opening, before a rest: it is closed by a star and another character,
by a character and a slash, or by the end of the text. -/
inductive CommentBody : (body rest : List Char) → Prop
  | ended : CommentBody [] []
  | endedAtStar : CommentBody ['*'] []
  | star (c : Char) (rest : List Char) : CommentBody ['*', c] rest
  | slash (c : Char) (rest : List Char) : CommentBody [c, '/'] rest
  | later {c : Char} {body rest : List Char} (hstar : c ≠ '*')
      (hslash : (body ++ rest).head? ≠ some '/') (hbody : CommentBody body rest) :
      CommentBody (c :: body) rest

/-- Cuts that the first piece of a text can be. -/
inductive Lawful : Cut → Prop
  | symbol {c : Char} {symbol : Symbol} {rest : List Char} (hsymbol : symbol? c = some symbol)
      (hslash : symbol ≠ .slash) (hequal : withEqual? symbol = none ∨ rest.head? ≠ some '=') :
      Lawful ⟨.token (.symbol symbol), [c], rest⟩
  | withEqual {c : Char} {symbol longer : Symbol} (rest : List Char)
      (hsymbol : symbol? c = some symbol) (hlonger : withEqual? symbol = some longer) :
      Lawful ⟨.token (.symbol longer), [c, '='], rest⟩
  | slash {rest : List Char} (hline : rest.head? ≠ some '/') (hblock : rest.head? ≠ some '*') :
      Lawful ⟨.token (.symbol .slash), ['/'], rest⟩
  | lineComment {body rest : List Char} (hbody : ∀ c ∈ body, c ≠ '\n')
      (hrest : ∀ c ∈ rest.head?, c = '\n') : Lawful ⟨.blank, '/' :: '/' :: body, rest⟩
  | blockComment {body rest : List Char} (hbody : CommentBody body rest) :
      Lawful ⟨.blank, '/' :: '*' :: body, rest⟩
  | blank {c : Char} (rest : List Char) (hblank : isBlank c = true) : Lawful ⟨.blank, [c], rest⟩
  | string {quote : Char} {content : List Char} (rest : List Char)
      (hquote : quote = '"' ∨ quote = '\'') (hcontent : ∀ c ∈ content, c ≠ quote) :
      Lawful ⟨stringPiece content, quote :: (content ++ [quote]), rest⟩
  | openString {quote : Char} {content : List Char} (hquote : quote = '"' ∨ quote = '\'')
      (hcontent : ∀ c ∈ content, c ≠ quote) :
      Lawful ⟨.fault .unterminatedString, quote :: content, []⟩
  | whole {c : Char} {digits rest : List Char} (hfirst : c.isDigit = true)
      (hdigits : ∀ c ∈ digits, c.isDigit = true) (hrest : ∀ c ∈ rest.head?, c.isDigit = false)
      (hpoint : ∀ c more, rest = '.' :: c :: more → c.isDigit = false) :
      Lawful ⟨numberPiece (c :: digits) [], c :: digits, rest⟩
  | decimal {c d : Char} {digits fraction rest : List Char} (hfirst : c.isDigit = true)
      (hdigits : ∀ c ∈ digits, c.isDigit = true) (hpoint : d.isDigit = true)
      (hfraction : ∀ c ∈ fraction, c.isDigit = true)
      (hrest : ∀ c ∈ rest.head?, c.isDigit = false) :
      Lawful ⟨numberPiece (c :: digits) (d :: fraction), c :: (digits ++ '.' :: d :: fraction), rest⟩
  | word {c : Char} {tail rest : List Char} (hfirst : Text.isAlphabetic c = true)
      (htail : ∀ c ∈ tail, isNameChar c = true) (hrest : ∀ c ∈ rest.head?, isNameChar c = false) :
      Lawful ⟨.token (wordToken (c :: tail)), c :: tail, rest⟩
  | stray {c : Char} (rest : List Char) (hsymbol : symbol? c = none) (hblank : isBlank c = false)
      (hquote : ¬ (c = '"' ∨ c = '\'')) (hdigit : c.isDigit = false)
      (hletter : Text.isAlphabetic c = false) : Lawful ⟨.stray c, [c], rest⟩

/-! ## Runs of characters -/

section Runs

variable {p : Char → Bool} {run rest : List Char}

/-- A text is a run of characters of a class and a rest that does not go on with one. -/
theorem exists_run (p : Char → Bool) (text : List Char) :
    ∃ run rest, text = run ++ rest ∧ (∀ c ∈ run, p c = true) ∧ ∀ c ∈ rest.head?, p c = false := by
  refine ⟨text.takeWhile p, text.dropWhile p, List.takeWhile_append_dropWhile.symm,
    fun c hc => List.mem_takeWhile_imp hc, fun c hc => ?_⟩
  have hnot := List.head?_dropWhile_not p text
  rwa [Option.mem_def.mp hc] at hnot

theorem takeWhile_run (hrun : ∀ c ∈ run, p c = true) (hrest : ∀ c ∈ rest.head?, p c = false) :
    (run ++ rest).takeWhile p = run := by
  rw [List.takeWhile_append_of_pos hrun]
  cases rest with
  | nil => simp
  | cons c rest => simp [hrest c rfl]

theorem dropWhile_run (hrun : ∀ c ∈ run, p c = true) (hrest : ∀ c ∈ rest.head?, p c = false) :
    (run ++ rest).dropWhile p = rest := by
  rw [List.dropWhile_append_of_pos hrun]
  cases rest with
  | nil => simp
  | cons c rest => simp [hrest c rfl]

end Runs

theorem behind_append (piece : Piece) (c : Char) (tail rest : List Char) :
    behind piece c tail (tail ++ rest) = ⟨piece, c :: tail, rest⟩ := by
  rw [behind, List.drop_left]

/-! ## The kinds of pieces -/

theorem slash_lineComment {body rest : List Char} (hbody : ∀ c ∈ body, c ≠ '\n')
    (hrest : ∀ c ∈ rest.head?, c = '\n') :
    Cut.slash ('/' :: (body ++ rest)) = ⟨.blank, '/' :: '/' :: body, rest⟩ := by
  have htake : (body ++ rest).takeWhile (· ≠ '\n') = body :=
    takeWhile_run (by simpa using hbody) (by simpa using hrest)
  rw [Cut.slash, htake]
  exact behind_append .blank '/' ('/' :: body) rest

theorem blockComment_of_body {body rest : List Char} (h : CommentBody body rest) :
    Cut.blockComment (body ++ rest) = body := by
  induction h with
  | ended => rfl
  | endedAtStar => rfl
  | star c rest => simp [Cut.blockComment]
  | slash c rest => simp [Cut.blockComment]
  | @later c body rest hstar hslash _ ih =>
      rw [List.cons_append, Cut.blockComment, if_neg (not_or.mpr ⟨hstar, hslash⟩), ih]

theorem exists_commentBody (text : List Char) :
    ∃ body rest, text = body ++ rest ∧ CommentBody body rest := by
  induction text with
  | nil => exact ⟨[], [], rfl, .ended⟩
  | cons c text ih =>
      by_cases hstar : c = '*'
      · subst hstar
        cases text with
        | nil => exact ⟨['*'], [], rfl, .endedAtStar⟩
        | cons d rest => exact ⟨['*', d], rest, rfl, .star d rest⟩
      · by_cases hslash : text.head? = some '/'
        · obtain ⟨rest, rfl⟩ := List.head?_eq_some_iff.mp hslash
          exact ⟨[c, '/'], rest, rfl, .slash c rest⟩
        · obtain ⟨body, rest, rfl, hbody⟩ := ih
          exact ⟨c :: body, rest, rfl, .later hstar hslash hbody⟩

theorem slash_blockComment {body rest : List Char} (h : CommentBody body rest) :
    Cut.slash ('*' :: (body ++ rest)) = ⟨.blank, '/' :: '*' :: body, rest⟩ := by
  rw [Cut.slash, blockComment_of_body h]
  exact behind_append .blank '/' ('*' :: body) rest

theorem slash_symbol {rest : List Char} (hline : rest.head? ≠ some '/')
    (hblock : rest.head? ≠ some '*') :
    Cut.slash rest = ⟨.token (.symbol .slash), ['/'], rest⟩ := by
  unfold Cut.slash
  split
  · exact absurd rfl hline
  · exact absurd rfl hblock
  · exact behind_append (.token (.symbol .slash)) '/' [] rest

theorem operator_withEqual {c : Char} {symbol longer : Symbol}
    (h : withEqual? symbol = some longer) (rest : List Char) :
    operator c symbol ('=' :: rest) = ⟨.token (.symbol longer), [c, '='], rest⟩ := by
  simp only [operator, h]
  exact behind_append (.token (.symbol longer)) c ['='] rest

theorem operator_symbol {c : Char} {symbol : Symbol} {rest : List Char}
    (h : withEqual? symbol = none ∨ rest.head? ≠ some '=') :
    operator c symbol rest = ⟨.token (.symbol symbol), [c], rest⟩ := by
  unfold operator
  split
  next longer tail hlonger =>
    rcases h with h | h
    · exact nomatch hlonger.symm.trans h
    · exact absurd rfl h
  next => exact behind_append (.token (.symbol symbol)) c [] _

theorem string_closed {quote : Char} {content : List Char} (rest : List Char)
    (hcontent : ∀ c ∈ content, c ≠ quote) :
    Cut.string quote (content ++ [quote] ++ rest) =
      ⟨stringPiece content, quote :: (content ++ [quote]), rest⟩ := by
  have happend := behind_append (stringPiece content) quote (content ++ [quote]) rest
  rw [List.append_assoc, List.singleton_append] at happend ⊢
  have hrun : ∀ c ∈ content, decide (c ≠ quote) = true := by simpa using hcontent
  have hrest : ∀ c ∈ (quote :: rest).head?, decide (c ≠ quote) = false := by simp
  simp only [Cut.string, takeWhile_run hrun hrest, dropWhile_run hrun hrest]
  exact happend

theorem string_open {quote : Char} {content : List Char} (hcontent : ∀ c ∈ content, c ≠ quote) :
    Cut.string quote content = ⟨.fault .unterminatedString, quote :: content, []⟩ := by
  have hrun : ∀ c ∈ content, decide (c ≠ quote) = true := by simpa using hcontent
  have hnil : ∀ c ∈ ([] : List Char).head?, decide (c ≠ quote) = false := nofun
  have htake := takeWhile_run hrun hnil
  have hdrop := dropWhile_run hrun hnil
  rw [List.append_nil] at htake hdrop
  simp only [Cut.string, htake, hdrop]
  have happend := behind_append (.fault .unterminatedString) quote content []
  rwa [List.append_nil] at happend

theorem number_whole {c : Char} {digits rest : List Char}
    (hdigits : ∀ c ∈ digits, c.isDigit = true) (hrest : ∀ c ∈ rest.head?, c.isDigit = false)
    (hpoint : ∀ c more, rest = '.' :: c :: more → c.isDigit = false) :
    number c (digits ++ rest) = ⟨numberPiece (c :: digits) [], c :: digits, rest⟩ := by
  have hfraction : fraction rest = [] := by
    unfold fraction
    split
    next more =>
      rw [if_pos]
      cases more with
      | nil => rfl
      | cons d more => simp [hpoint d more rfl]
    next => rfl
  simp only [number, takeWhile_run hdigits hrest, List.drop_left, hfraction, List.append_nil]
  exact behind_append (numberPiece (c :: digits) []) c digits rest

theorem number_decimal {c d : Char} {digits more rest : List Char}
    (hdigits : ∀ c ∈ digits, c.isDigit = true) (hpoint : d.isDigit = true)
    (hmore : ∀ c ∈ more, c.isDigit = true) (hrest : ∀ c ∈ rest.head?, c.isDigit = false) :
    number c (digits ++ '.' :: d :: more ++ rest) =
      ⟨numberPiece (c :: digits) (d :: more), c :: (digits ++ '.' :: d :: more), rest⟩ := by
  have hfirst : ∀ c ∈ ('.' :: (d :: more ++ rest)).head?, c.isDigit = false := by
    rintro _ ⟨⟩
    rfl
  have htake : (d :: more ++ rest).takeWhile Char.isDigit = d :: more :=
    takeWhile_run (List.forall_mem_cons.mpr ⟨hpoint, hmore⟩) hrest
  have hfraction : fraction ('.' :: (d :: more ++ rest)) = '.' :: d :: more := by
    rw [fraction, htake]
    rfl
  rw [List.append_assoc, List.cons_append]
  simp only [number, takeWhile_run hdigits hfirst, List.drop_left, hfraction]
  have happend := behind_append (numberPiece (c :: digits) (d :: more)) c
    (digits ++ '.' :: d :: more) rest
  rwa [List.append_assoc, List.cons_append] at happend

theorem word_run {c : Char} {tail rest : List Char} (htail : ∀ c ∈ tail, isNameChar c = true)
    (hrest : ∀ c ∈ rest.head?, isNameChar c = false) :
    word c (tail ++ rest) = ⟨.token (wordToken (c :: tail)), c :: tail, rest⟩ := by
  simp only [word, takeWhile_run htail hrest]
  exact behind_append _ c tail rest

/-! ## First characters -/

/-- Characters that are symbols, blanks or quotes are in no class besides. -/
theorem isAlphabetic_of_symbol? {c : Char} {symbol : Symbol} (h : symbol? c = some symbol) :
    Text.isAlphabetic c = false ∧ c.isDigit = false ∧ isBlank c = false := by
  unfold symbol? at h
  split at h
  case h_16 => exact nomatch h
  all_goals decide

theorem isAlphabetic_of_isBlank {c : Char} (h : isBlank c = true) :
    Text.isAlphabetic c = false ∧ c.isDigit = false := by
  simp only [isBlank, Bool.or_eq_true, decide_eq_true_eq] at h
  rcases h with ((rfl | rfl) | rfl) | rfl <;> decide

theorem isAlphabetic_of_isDigit {c : Char} (h : c.isDigit = true) :
    Text.isAlphabetic c = false := by
  obtain ⟨-, hle⟩ := Char.isDigit_iff_toNat.mp h
  have hnine : '9'.toNat = 57 := rfl
  have hupper : ¬ 'A'.toNat ≤ c.toNat := by
    have : 'A'.toNat = 65 := rfl
    omega
  have hlower : ¬ 'a'.toNat ≤ c.toNat := by
    have : 'a'.toNat = 97 := rfl
    omega
  rw [Text.isAlphabetic_of_ascii (by omega)]
  refine Bool.or_eq_false_iff.mpr ⟨decide_eq_false fun h => hupper ?_,
    Bool.and_eq_false_iff.mpr (.inl (decide_eq_false fun h => hlower ?_))⟩
  · exact UInt32.le_iff_toNat_le.mp h.1
  · exact UInt32.le_iff_toNat_le.mp h

/-- A choice by the first character of a piece. -/
def select {α : Type} (c : Char) (slash : α) (operator : Symbol → α)
    (blank string number word stray : α) : α :=
  match symbol? c with
  | some .slash => slash
  | some symbol => operator symbol
  | none =>
    if isBlank c then blank
    else if c = '"' ∨ c = '\'' then string
    else if c.isDigit then number
    else if Text.isAlphabetic c then word
    else stray

theorem first_eq_select (c : Char) (text : List Char) :
    first c text = select c (slash text) (operator c · text) (behind .blank c [] text)
      (string c text) (number c text) (word c text) (behind (.stray c) c [] text) := rfl

section Select

variable {α : Type} {c : Char} {slash : α} {operator : Symbol → α}
variable {blank string number word stray : α}

theorem select_of_symbol? {symbol : Symbol} (h : symbol? c = some symbol)
    (hslash : symbol ≠ .slash) :
    select c slash operator blank string number word stray = operator symbol := by
  simp only [select, h]

theorem select_of_isBlank (h : isBlank c = true) :
    select c slash operator blank string number word stray = blank := by
  have hsymbol : symbol? c = none := by
    cases hsymbol : symbol? c with
    | none => rfl
    | some symbol => exact absurd h (Bool.eq_false_iff.mp (isAlphabetic_of_symbol? hsymbol).2.2)
  simp only [select, hsymbol, if_pos h]

theorem select_of_quote (h : c = '"' ∨ c = '\'') :
    select c slash operator blank string number word stray = string := by
  rcases h with rfl | rfl <;> rfl

theorem select_of_isDigit (h : c.isDigit = true) :
    select c slash operator blank string number word stray = number := by
  have hsymbol : symbol? c = none := by
    cases hsymbol : symbol? c with
    | none => rfl
    | some symbol => exact absurd h (Bool.eq_false_iff.mp (isAlphabetic_of_symbol? hsymbol).2.1)
  have hblank : ¬ isBlank c = true := fun hblank =>
    Bool.eq_false_iff.mp (isAlphabetic_of_isBlank hblank).2 h
  have hquote : ¬ (c = '"' ∨ c = '\'') := by
    rintro (rfl | rfl) <;> exact absurd h (by decide)
  simp only [select, hsymbol, if_neg hblank, if_neg hquote, if_pos h]

theorem select_of_isAlphabetic (h : Text.isAlphabetic c = true) :
    select c slash operator blank string number word stray = word := by
  have hsymbol : symbol? c = none := by
    cases hsymbol : symbol? c with
    | none => rfl
    | some symbol => exact absurd h (Bool.eq_false_iff.mp (isAlphabetic_of_symbol? hsymbol).1)
  have hblank : ¬ isBlank c = true := fun hblank =>
    Bool.eq_false_iff.mp (isAlphabetic_of_isBlank hblank).1 h
  have hquote : ¬ (c = '"' ∨ c = '\'') := by
    rintro (rfl | rfl) <;> exact absurd h (by decide)
  have hdigit : ¬ c.isDigit = true := fun hdigit =>
    Bool.eq_false_iff.mp (isAlphabetic_of_isDigit hdigit) h
  simp only [select, hsymbol, if_neg hblank, if_neg hquote, if_neg hdigit, if_pos h]

theorem select_of_none (hsymbol : symbol? c = none) (hblank : isBlank c = false)
    (hquote : ¬ (c = '"' ∨ c = '\'')) (hdigit : c.isDigit = false)
    (hletter : Text.isAlphabetic c = false) :
    select c slash operator blank string number word stray = stray := by
  simp only [select, hsymbol, hblank, if_neg hquote, hdigit, hletter, Bool.false_eq_true, if_false]

end Select

/-! ## The first piece -/

/-- A lawful cut of a text is its first piece. -/
theorem Lawful.first_eq {cut : Cut} (h : cut.Lawful) {c : Char} {text : List Char}
    (htext : cut.lexeme ++ cut.rest = c :: text) : first c text = cut := by
  rw [first_eq_select]
  cases h with
  | symbol hsymbol hslash hequal =>
      cases htext
      rw [select_of_symbol? hsymbol hslash]
      exact operator_symbol hequal
  | @withEqual _ symbol _ rest hsymbol hlonger =>
      cases htext
      have hslash : symbol ≠ .slash := by
        rintro rfl
        exact nomatch hlonger
      rw [select_of_symbol? hsymbol hslash]
      exact operator_withEqual hlonger rest
  | slash hline hblock =>
      cases htext
      exact slash_symbol hline hblock
  | lineComment hbody hrest =>
      cases htext
      exact slash_lineComment hbody hrest
  | blockComment hbody =>
      cases htext
      exact slash_blockComment hbody
  | blank rest hblank =>
      cases htext
      rw [select_of_isBlank hblank]
      exact behind_append .blank c [] rest
  | string rest hquote hcontent =>
      cases htext
      rw [select_of_quote hquote]
      exact string_closed rest hcontent
  | openString hquote hcontent =>
      cases htext
      rw [select_of_quote hquote]
      exact (congrArg _ (List.append_nil _)).trans (string_open hcontent)
  | whole hfirst hdigits hrest hpoint =>
      cases htext
      rw [select_of_isDigit hfirst]
      exact number_whole hdigits hrest hpoint
  | decimal hfirst hdigits hpoint hfraction hrest =>
      cases htext
      rw [select_of_isDigit hfirst]
      exact number_decimal hdigits hpoint hfraction hrest
  | word hfirst htail hrest =>
      cases htext
      rw [select_of_isAlphabetic hfirst]
      exact word_run htail hrest
  | stray rest hsymbol hblank hquote hdigit hletter =>
      cases htext
      rw [select_of_none hsymbol hblank hquote hdigit hletter]
      exact behind_append (.stray c) c [] rest

theorem exists_lawful_slash (text : List Char) :
    ∃ cut : Cut, cut.Lawful ∧ cut.lexeme ++ cut.rest = '/' :: text := by
  by_cases hline : text.head? = some '/'
  · obtain ⟨text, rfl⟩ := List.head?_eq_some_iff.mp hline
    obtain ⟨body, rest, rfl, hbody, hrest⟩ := exists_run (· ≠ '\n') text
    exact ⟨_, .lineComment (by simpa using hbody) (by simpa using hrest), rfl⟩
  · by_cases hblock : text.head? = some '*'
    · obtain ⟨text, rfl⟩ := List.head?_eq_some_iff.mp hblock
      obtain ⟨body, rest, rfl, hbody⟩ := exists_commentBody text
      exact ⟨_, .blockComment hbody, rfl⟩
    · exact ⟨_, .slash hline hblock, rfl⟩

theorem exists_lawful_string {quote : Char} (hquote : quote = '"' ∨ quote = '\'')
    (text : List Char) : ∃ cut : Cut, cut.Lawful ∧ cut.lexeme ++ cut.rest = quote :: text := by
  obtain ⟨content, rest, rfl, hcontent, hrest⟩ := exists_run (· ≠ quote) text
  have hcontent : ∀ c ∈ content, c ≠ quote := by simpa using hcontent
  cases rest with
  | nil => exact ⟨_, .openString hquote hcontent, rfl⟩
  | cons c rest =>
      obtain rfl : c = quote := by simpa using hrest
      exact ⟨_, .string rest hquote hcontent, by simp⟩

theorem exists_lawful_number {c : Char} (hfirst : c.isDigit = true) (text : List Char) :
    ∃ cut : Cut, cut.Lawful ∧ cut.lexeme ++ cut.rest = c :: text := by
  obtain ⟨digits, rest, rfl, hdigits, hrest⟩ := exists_run Char.isDigit text
  by_cases hdecimal : ∃ d more, rest = '.' :: d :: more ∧ d.isDigit = true
  · obtain ⟨d, more, rfl, hpoint⟩ := hdecimal
    obtain ⟨fraction, rest, rfl, hfraction, hbehind⟩ := exists_run Char.isDigit more
    exact ⟨_, .decimal hfirst hdigits hpoint hfraction hbehind, by simp⟩
  · refine ⟨_, .whole hfirst hdigits hrest ?_, rfl⟩
    intro d more hmore
    exact Bool.eq_false_iff.mpr fun hd => hdecimal ⟨d, more, hmore, hd⟩

/-- Every text that is not empty has a lawful cut. -/
theorem exists_lawful (c : Char) (text : List Char) :
    ∃ cut : Cut, cut.Lawful ∧ cut.lexeme ++ cut.rest = c :: text := by
  cases hsymbol : symbol? c with
  | some symbol =>
      by_cases hslash : symbol = .slash
      · obtain rfl : c = '/' := by
          unfold symbol? at hsymbol
          split at hsymbol <;> simp_all
        exact exists_lawful_slash text
      · cases hlonger : withEqual? symbol with
        | none => exact ⟨_, .symbol hsymbol hslash (.inl hlonger), rfl⟩
        | some longer =>
            by_cases hequal : text.head? = some '='
            · obtain ⟨rest, rfl⟩ := List.head?_eq_some_iff.mp hequal
              exact ⟨_, .withEqual rest hsymbol hlonger, rfl⟩
            · exact ⟨_, .symbol hsymbol hslash (.inr hequal), rfl⟩
  | none =>
      cases hblank : isBlank c with
      | true => exact ⟨_, .blank text hblank, rfl⟩
      | false =>
          by_cases hquote : c = '"' ∨ c = '\''
          · exact exists_lawful_string hquote text
          · cases hdigit : c.isDigit with
            | true => exact exists_lawful_number hdigit text
            | false =>
                cases hletter : Text.isAlphabetic c with
                | true =>
                    obtain ⟨tail, rest, rfl, htail, hrest⟩ := exists_run isNameChar text
                    exact ⟨_, .word hletter htail hrest, rfl⟩
                | false => exact ⟨_, .stray text hsymbol hblank hquote hdigit hletter, rfl⟩

/-- The first piece of a text, said without scanning. -/
theorem first_eq_iff {c : Char} {text : List Char} {cut : Cut} :
    first c text = cut ↔ cut.Lawful ∧ cut.lexeme ++ cut.rest = c :: text := by
  constructor
  · rintro rfl
    obtain ⟨cut, hlawful, htext⟩ := exists_lawful c text
    rw [hlawful.first_eq htext]
    exact ⟨hlawful, htext⟩
  · rintro ⟨hlawful, htext⟩
    exact hlawful.first_eq htext

theorem Lawful.lexeme_ne_nil {cut : Cut} (h : cut.Lawful) : cut.lexeme ≠ [] := by
  cases h <;> exact List.cons_ne_nil _ _

/-! ## What stands behind a piece -/

theorem mem_head?_of_prefix {other rest : List Char} (h : other <+: rest) :
    ∀ c ∈ other.head?, c ∈ rest.head? := by
  obtain ⟨more, rfl⟩ := h
  cases other with
  | nil => exact nofun
  | cons d other => exact fun c hc => hc

theorem CommentBody.of_prefix {body rest other : List Char} (h : CommentBody body rest)
    (hother : other <+: rest) : CommentBody body other := by
  induction h with
  | ended =>
      obtain rfl := List.prefix_nil.mp hother
      exact .ended
  | endedAtStar =>
      obtain rfl := List.prefix_nil.mp hother
      exact .endedAtStar
  | star c rest => exact .star c other
  | slash c rest => exact .slash c other
  | later hstar hslash _ ih =>
      refine .later hstar (fun hhead => hslash ?_) (ih hother)
      exact mem_head?_of_prefix ((List.prefix_append_right_inj _).mpr hother) '/' hhead

/-- A lawful cut stays one when the text behind it is cut short. -/
theorem Lawful.of_prefix {piece : Piece} {lexeme rest other : List Char}
    (h : Lawful ⟨piece, lexeme, rest⟩) (hother : other <+: rest) :
    Lawful ⟨piece, lexeme, other⟩ := by
  have hhead := mem_head?_of_prefix hother
  cases h with
  | symbol hsymbol hslash hequal =>
      exact .symbol hsymbol hslash (hequal.imp_right fun hne heq => hne (hhead '=' heq))
  | withEqual _ hsymbol hlonger => exact .withEqual other hsymbol hlonger
  | slash hline hblock =>
      exact .slash (fun heq => hline (hhead '/' heq)) (fun heq => hblock (hhead '*' heq))
  | lineComment hbody hrest => exact .lineComment hbody fun c hc => hrest c (hhead c hc)
  | blockComment hbody => exact .blockComment (hbody.of_prefix hother)
  | blank _ hblank => exact .blank other hblank
  | string _ hquote hcontent => exact .string other hquote hcontent
  | openString hquote hcontent =>
      obtain rfl := List.prefix_nil.mp hother
      exact .openString hquote hcontent
  | whole hfirst hdigits hrest hpoint =>
      refine .whole hfirst hdigits (fun c hc => hrest c (hhead c hc)) ?_
      rintro c more rfl
      obtain ⟨behind, rfl⟩ := hother
      exact hpoint c (more ++ behind) rfl
  | decimal hfirst hdigits hpoint hfraction hrest =>
      exact .decimal hfirst hdigits hpoint hfraction fun c hc => hrest c (hhead c hc)
  | word hfirst htail hrest => exact .word hfirst htail fun c hc => hrest c (hhead c hc)
  | stray _ hsymbol hblank hquote hdigit hletter =>
      exact .stray other hsymbol hblank hquote hdigit hletter

/-- What a lexer yields stays a piece when a blank is put behind it, unless it is a string literal
that nothing closes. -/
theorem Lawful.before_blank {piece : Piece} {lexeme rest : List Char}
    (h : Lawful ⟨piece, lexeme, rest⟩) (hitem : piece.isSkipped = false)
    (hclosed : piece ≠ .fault .unterminatedString) (other : List Char) :
    Lawful ⟨piece, lexeme, ' ' :: other⟩ := by
  cases h with
  | symbol hsymbol hslash hequal => exact .symbol hsymbol hslash (.inr (by simp))
  | withEqual _ hsymbol hlonger => exact .withEqual _ hsymbol hlonger
  | slash hline hblock => exact .slash (by simp) (by simp)
  | lineComment hbody hrest => exact nomatch hitem
  | blockComment hbody => exact nomatch hitem
  | blank _ hblank => exact nomatch hitem
  | string _ hquote hcontent => exact .string _ hquote hcontent
  | openString hquote hcontent => exact absurd rfl hclosed
  | whole hfirst hdigits hrest hpoint =>
      refine .whole hfirst hdigits ?_ (by simp)
      rintro _ ⟨⟩
      rfl
  | decimal hfirst hdigits hpoint hfraction hrest =>
      refine .decimal hfirst hdigits hpoint hfraction ?_
      rintro _ ⟨⟩
      rfl
  | word hfirst htail hrest =>
      refine .word hfirst htail ?_
      rintro _ ⟨⟩
      decide
  | stray _ hsymbol hblank hquote hdigit hletter => exact nomatch hitem

/-- A string literal that nothing closes is the last piece. -/
theorem Lawful.rest_eq_nil {lexeme rest : List Char}
    (h : Lawful ⟨.fault .unterminatedString, lexeme, rest⟩) : rest = [] := by
  generalize hpiece : Piece.fault .unterminatedString = piece at h
  cases h with
  | openString => rfl
  | string _ _ _ =>
      unfold stringPiece at hpiece
      split at hpiece
      next => exact nomatch hpiece
      next error _ => cases error <;> exact nomatch hpiece
  | whole _ _ _ _ | decimal _ _ _ _ _ =>
      rw [numberPiece] at hpiece
      generalize Binary64.ofDigits? _ _ = value at hpiece
      cases value <;> exact nomatch hpiece
  | _ => exact nomatch hpiece

theorem Lawful.piece_ne_endOfInput {cut : Cut} (h : cut.Lawful) :
    cut.piece ≠ .token .endOfInput := by
  intro hpiece
  cases h with
  | string _ _ _ =>
      simp only [stringPiece] at hpiece
      split at hpiece <;> exact nomatch hpiece
  | whole _ _ _ _ | decimal _ _ _ _ _ =>
      simp only [numberPiece] at hpiece
      generalize Binary64.ofDigits? _ _ = value at hpiece
      cases value <;> exact nomatch hpiece
  | word _ _ _ =>
      simp only [wordToken] at hpiece
      split at hpiece <;> exact nomatch hpiece
  | _ => exact nomatch hpiece

end Cut

/-! ## All pieces -/

/-- The text of some pieces. -/
def textOfPieces (pieces : List (Piece × List Char)) : List Char :=
  pieces.flatMap (·.2)

@[simp] theorem textOfPieces_nil : textOfPieces [] = [] := rfl

@[simp] theorem textOfPieces_cons (piece : Piece) (lexeme : List Char)
    (more : List (Piece × List Char)) :
    textOfPieces ((piece, lexeme) :: more) = lexeme ++ textOfPieces more := rfl

@[simp] theorem textOfPieces_append (front back : List (Piece × List Char)) :
    textOfPieces (front ++ back) = textOfPieces front ++ textOfPieces back :=
  List.flatMap_append

theorem pieces_of_lawful {piece : Piece} {lexeme rest : List Char}
    (h : Cut.Lawful ⟨piece, lexeme, rest⟩) :
    pieces (lexeme ++ rest) = (piece, lexeme) :: pieces rest := by
  obtain ⟨c, tail, rfl⟩ := List.exists_cons_of_ne_nil h.lexeme_ne_nil
  have hfirst : Cut.first c (tail ++ rest) = ⟨piece, c :: tail, rest⟩ := h.first_eq rfl
  rw [List.cons_append, pieces, hfirst]

theorem lawful_of_pieces {text lexeme : List Char} {piece : Piece}
    {more : List (Piece × List Char)} (h : pieces text = (piece, lexeme) :: more) :
    ∃ rest, text = lexeme ++ rest ∧ Cut.Lawful ⟨piece, lexeme, rest⟩ ∧ pieces rest = more := by
  cases text with
  | nil =>
      rw [pieces] at h
      cases h
  | cons c text =>
      obtain ⟨hlawful, htext⟩ := Cut.first_eq_iff.mp (Eq.refl (Cut.first c text))
      rw [pieces] at h
      obtain ⟨hfirst, hmore⟩ := List.cons.inj h
      obtain ⟨rfl, rfl⟩ := Prod.mk.inj hfirst
      exact ⟨_, htext.symm, hlawful, hmore⟩

/-- What is true of lawful cuts is true of all pieces of a text. -/
theorem forall_mem_pieces {P : Piece → List Char → Prop}
    (h : ∀ {piece lexeme rest}, Cut.Lawful ⟨piece, lexeme, rest⟩ → P piece lexeme)
    (text : List Char) : ∀ found ∈ pieces text, P found.1 found.2 := by
  induction hpieces : pieces text generalizing text with
  | nil => exact List.forall_mem_nil _
  | cons found more ih =>
      obtain ⟨rest, -, hlawful, hrest⟩ := lawful_of_pieces hpieces
      exact List.forall_mem_cons.mpr ⟨h hlawful, ih rest hrest⟩

theorem textOfPieces_pieces (text : List Char) : textOfPieces (pieces text) = text := by
  induction hpieces : pieces text generalizing text with
  | nil =>
      cases text with
      | nil => rfl
      | cons c text =>
          rw [pieces] at hpieces
          cases hpieces
  | cons first more ih =>
      obtain ⟨rest, rfl, -, hrest⟩ := lawful_of_pieces hpieces
      rw [textOfPieces_cons, ih rest hrest]

/-- A piece of a text is a lawful cut before the pieces behind it. -/
theorem lawful_of_pieces_append {text lexeme : List Char} {piece : Piece}
    {before behind : List (Piece × List Char)}
    (h : pieces text = before ++ (piece, lexeme) :: behind) :
    Cut.Lawful ⟨piece, lexeme, textOfPieces behind⟩ := by
  induction before generalizing text with
  | nil =>
      obtain ⟨rest, -, hlawful, hrest⟩ := lawful_of_pieces h
      rwa [← hrest, textOfPieces_pieces]
  | cons first before ih =>
      obtain ⟨rest, -, -, hrest⟩ := lawful_of_pieces h
      exact ih hrest

/-- The text of some pieces of a text that stand next to each other has just these pieces. -/
theorem pieces_textOfPieces {text : List Char} {before among behind : List (Piece × List Char)}
    (h : pieces text = before ++ (among ++ behind)) : pieces (textOfPieces among) = among := by
  induction before generalizing text with
  | cons first before ih =>
      obtain ⟨rest, -, -, hrest⟩ := lawful_of_pieces h
      exact ih hrest
  | nil =>
      rw [List.nil_append] at h
      induction among generalizing text with
      | nil => rw [textOfPieces_nil, pieces]
      | cons first among ih =>
          obtain ⟨piece, lexeme⟩ := first
          rw [List.cons_append] at h
          obtain ⟨rest, -, hlawful, hrest⟩ := lawful_of_pieces h
          -- What follows among these pieces is the beginning of what followed in the text.
          have hbeginning : textOfPieces among <+: rest := by
            rw [← textOfPieces_pieces rest, hrest, textOfPieces_append]
            exact List.prefix_append _ _
          rw [textOfPieces_cons, pieces_of_lawful (hlawful.of_prefix hbeginning), ih hrest]

end Stacklet
