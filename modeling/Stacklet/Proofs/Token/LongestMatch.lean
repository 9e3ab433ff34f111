import Stacklet.Proofs.Token.Lexemes

/-! # Tokens are as long as possible

Wherever a token stands, it is one by itself, and no longer part of the text that starts at the same
place is: whatever follows, the scan of a longer part ends its first token at the same character.
-/

namespace Stacklet

/-- The first token that a scan yields ends where the first piece ends, if that is a token. -/
theorem stop_of_scan {text lexeme : List Char} {token : Token} {more : List (Piece × List Char)}
    (h : pieces text = (.token token, lexeme) :: more) {first : Located Token}
    {rest : List (Located Token)} (hscan : scan text = .ok (first :: rest)) :
    first.span.stop = byteLength lexeme := by
  rw [scan, Lexer.exhaust] at hscan
  split at hscan
  next =>
    rw [Lexer.tokens, Lexer.ofText, h] at hscan
    simp only [locate, List.filterMap_cons, Bool.false_eq_true, if_false, List.cons_append,
      Except.ok.injEq, List.cons.injEq] at hscan
    obtain ⟨rfl, -⟩ := hscan
    exact Nat.zero_add _
  next => cases hscan

/-- A lexeme with something behind it is not one token, if with all that is behind it in the text it
was a token. -/
theorem not_isOneToken_of_lawful {token other : Token} {lexeme behind rest : List Char}
    (h : Cut.Lawful ⟨.token token, lexeme, rest⟩) (hbehind : behind <+: rest) (hne : behind ≠ []) :
    ¬ IsOneToken (lexeme ++ behind) other := by
  intro ⟨line, finish, hscan⟩
  have hpieces := pieces_of_lawful (h.of_prefix hbehind)
  have hstop := stop_of_scan hpieces hscan
  rw [byteLength_append] at hstop
  have hpositive := byteLength_pos hne
  simp only at hstop
  omega

/-- A longer slice of a text from the start of a lexeme on is the lexeme and a beginning of what is
behind it. -/
theorem exists_behind_of_slice? {front lexeme rest longer : List Char} {stop : Nat}
    (hslice : slice? (front ++ (lexeme ++ rest)) (byteLength front) stop = some longer)
    (hstop : byteLength front + byteLength lexeme < stop) :
    ∃ behind, longer = lexeme ++ behind ∧ behind <+: rest ∧ behind ≠ [] := by
  obtain ⟨before, after, htext, hfront, rfl⟩ := exists_of_slice? hslice
  have hbefore : before = front := by
    have hwithin := charsWithin_append front (lexeme ++ rest)
    rwa [htext, ← hfront, charsWithin_append] at hwithin
  subst hbefore
  rw [List.append_cancel_left_eq] at htext
  rcases List.append_eq_append_iff.mp htext with ⟨behind, rfl, rfl⟩ | ⟨more, rfl, -⟩
  · refine ⟨behind, rfl, List.prefix_append behind after, ?_⟩
    rintro rfl
    simp at hstop
  · -- The lexeme would be the longer one.
    rw [byteLength_append] at hstop
    omega

/-- Every token that a lexer yields is as long as possible: by itself it is one token, if it is not
the end of input, and no part of the text that starts where it starts and ends behind it is one. -/
theorem Lexer.token_maximal (source : Source) {read : Located Token}
    (h : .token read ∈ (ofText source.text).items) :
    (read.value ≠ .endOfInput → IsOneToken (read.span.lexemeIn source) read.value) ∧
    ∀ stop longer, read.span.stop < stop →
      slice? source.text read.span.start stop = some longer →
      ∀ token, ¬ IsOneToken longer token := by
  rw [items_ofText, List.mem_append, List.mem_singleton] at h
  rcases h with h | h
  · obtain ⟨before, piece, lexeme, behind, hpieces, hitem⟩ := exists_piece_of_mem_itemsOf h
    cases piece with
    | token token =>
        cases hitem
        have htext : source.text = textOfPieces before ++ (lexeme ++ textOfPieces behind) := by
          rw [← textOfPieces_pieces source.text, hpieces, textOfPieces_append, textOfPieces_cons]
        have hlawful := lawful_of_pieces_append hpieces
        rw [Nat.zero_add]
        constructor
        · intro _
          have halone : pieces lexeme = [(.token token, lexeme)] := by
            apply @pieces_lexeme source.text
            simp [hpieces]
          rw [Piece.lexemeIn_span (.token token) htext]
          exact isOneToken_of_pieces halone
        · intro stop longer hstop hslice other
          rw [htext] at hslice
          obtain ⟨more, rfl, hmore, hne⟩ := exists_behind_of_slice? hslice hstop
          exact not_isOneToken_of_lawful hlawful hmore hne
    | blank | stray _ | fault _ => cases hitem
  · cases h
    constructor
    · intro hne
      exact absurd rfl hne
    · intro stop longer hstop hslice
      obtain ⟨front, after, htext, hfront, rfl⟩ := exists_of_slice? hslice
      -- There is nothing behind the end.
      have hlength := congrArg byteLength htext
      simp only [byteLength_append] at hlength hstop
      omega

/-- What follows the second character could have been the second character. -/
theorem Lexer.token_maximal_lessEqual :
    .token ⟨.symbol .lessEqual, ⟨1, 1, 3⟩⟩ ∈ (ofText "a<==b".toList).items ∧
      slice? "a<==b".toList 1 4 = some "<==".toList ∧
      ∀ token, ¬ IsOneToken "<==".toList token := by
  have hmem : .token ⟨.symbol .lessEqual, ⟨1, 1, 3⟩⟩ ∈ (ofText "a<==b".toList).items := by
    decide +kernel
  have hslice : slice? "a<==b".toList 1 4 = some "<==".toList := by decide +kernel
  have hmaximal := (token_maximal ⟨"test", "a<==b".toList⟩ hmem).2
  exact ⟨hmem, hslice, hmaximal 4 "<==".toList (by decide) hslice⟩

end Stacklet
