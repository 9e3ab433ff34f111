import Stacklet.Proofs.Token.Items
import Stacklet.Proofs.Token.Offsets

/-! # Lexemes carry the whole meaning

What a lexer yields depends on its lexeme and on nothing around it: a lexeme scanned by itself
yields the same value, and so do all lexemes of a text when they are joined by single blanks.
-/

namespace Stacklet

/-- Whether this is the end of input. -/
def Item.isEndOfInput : Item → Bool
  | token ⟨.endOfInput, _⟩ => true
  | _ => false

theorem Item.isEndOfInput_eq_false {item : Item} (h : item.value ≠ .ok .endOfInput) :
    item.isEndOfInput = false := by
  unfold isEndOfInput
  split
  next => exact absurd rfl h
  next => rfl

/-- What a lexer yields before the end of input. -/
def Lexer.itemsBeforeEnd (lexer : Lexer) : List Item :=
  lexer.items.takeWhile (!·.isEndOfInput)

theorem Lexer.itemsBeforeEnd_ofText (text : List Char) :
    (ofText text).itemsBeforeEnd = itemsOf 1 0 (pieces text) := by
  rw [itemsBeforeEnd, items_ofText, List.takeWhile_append_of_pos]
  · exact List.append_nil _
  · intro item hitem
    rw [Item.isEndOfInput_eq_false (value_ne_endOfInput hitem)]
    rfl

/-! ## Lexemes and their values -/

/-- The lexemes that a lexer yields a value for, and the values. -/
def readings (pieces : List (Piece × List Char)) : List (List Char × Except LexError Token) :=
  pieces.filterMap fun found => found.1.value?.map (found.2, ·)

theorem readings_of_none {piece : Piece} (h : piece.value? = none) (lexeme : List Char)
    (more : List (Piece × List Char)) : readings ((piece, lexeme) :: more) = readings more := by
  simp [readings, h]

theorem readings_of_some {piece : Piece} {value : Except LexError Token}
    (h : piece.value? = some value) (lexeme : List Char) (more : List (Piece × List Char)) :
    readings ((piece, lexeme) :: more) = (lexeme, value) :: readings more := by
  simp [readings, h]

theorem map_snd_readings (pieces : List (Piece × List Char)) :
    (readings pieces).map (·.2) = pieces.filterMap (·.1.value?) := by
  simp [readings, List.map_filterMap, Function.comp_def]

theorem Piece.item?_of_value? {piece : Piece} {value : Except LexError Token}
    (h : piece.value? = some value) (span : Span) :
    ∃ item, piece.item? span = some item ∧ item.value = value := by
  cases piece <;> cases h <;> exact ⟨_, rfl, rfl⟩

theorem Piece.isSkipped_iff {piece : Piece} : piece.isSkipped = true ↔ piece.value? = none := by
  cases piece <;> simp [value?, isSkipped]

/-- The span of a piece covers its lexeme. -/
theorem Piece.lexemeIn_span (piece : Piece) {source : Source} {before lexeme behind : List Char}
    (h : source.text = before ++ (lexeme ++ behind)) {line : Nat} :
    (piece.span line (byteLength before) lexeme).lexemeIn source = lexeme := by
  apply lexemeIn_of_slice?
  rw [h]
  exact slice?_append before lexeme behind

/-- The spans of items cover the lexemes that their values were read from. -/
theorem Lexer.map_itemsOf {source : Source} {before : List Char}
    {pieces : List (Piece × List Char)} (h : source.text = before ++ textOfPieces pieces)
    (line : Nat) :
    (itemsOf line (byteLength before) pieces).map
      (fun item => (item.span.lexemeIn source, item.value)) = readings pieces := by
  induction pieces generalizing before line with
  | nil => rfl
  | cons found more ih =>
      obtain ⟨piece, lexeme⟩ := found
      rw [textOfPieces_cons] at h
      have hmore := @ih (before ++ lexeme) (by simpa using h) (line + newlines lexeme)
      rw [byteLength_append] at hmore
      cases hvalue : piece.value? with
      | none =>
          rw [itemsOf_of_isSkipped (Piece.isSkipped_iff.mpr hvalue), readings_of_none hvalue, hmore]
      | some value =>
          obtain ⟨item, hitem, rfl⟩ :=
            Piece.item?_of_value? hvalue (piece.span line (byteLength before) lexeme)
          have hlexeme : item.span.lexemeIn source = lexeme := by
            rw [Piece.span_of_item? hitem, piece.lexemeIn_span h]
          rw [itemsOf_of_item? hitem, readings_of_some hvalue, List.map_cons, hlexeme, hmore]

theorem exists_piece_of_mem_readings {pieces : List (Piece × List Char)} {lexeme : List Char}
    {value : Except LexError Token} (h : (lexeme, value) ∈ readings pieces) :
    ∃ piece, (piece, lexeme) ∈ pieces ∧ piece.value? = some value := by
  obtain ⟨⟨piece, found⟩, hmem, hread⟩ := List.mem_filterMap.mp h
  obtain ⟨_, hvalue, hpair⟩ := Option.map_eq_some_iff.mp hread
  obtain ⟨rfl, rfl⟩ := Prod.mk.inj hpair
  exact ⟨piece, hmem, hvalue⟩

/-! ## Lexemes scanned again -/

/-- A piece of a text is the only piece of its lexeme. -/
theorem pieces_lexeme {text lexeme : List Char} {piece : Piece}
    (h : (piece, lexeme) ∈ pieces text) : pieces lexeme = [(piece, lexeme)] := by
  obtain ⟨before, behind, hpieces⟩ := List.append_of_mem h
  have halone := @pieces_textOfPieces text before [(piece, lexeme)] behind hpieces
  rwa [textOfPieces_cons, textOfPieces_nil, List.append_nil] at halone

/-- A text is one token: scanned by itself, it yields a token that covers all of it, and the end of
input. -/
def IsOneToken (text : List Char) (token : Token) : Prop :=
  ∃ line finish, scan text =
    .ok [⟨token, ⟨line, 0, byteLength text⟩⟩, ⟨.endOfInput, finish⟩]

theorem isOneToken_of_pieces {text : List Char} {token : Token}
    (h : pieces text = [(.token token, text)]) : IsOneToken text token := by
  refine ⟨1 + newlines text, ⟨1 + newlines text, byteLength text, byteLength text⟩, ?_⟩
  simp [scan, Lexer.exhaust, Lexer.faults, Lexer.tokens, Lexer.ofText, h, locate, Piece.span]

theorem readings_pieces_blank (text : List Char) :
    readings (pieces (' ' :: text)) = readings (pieces text) := by
  have hblank : Cut.Lawful ⟨.blank, [' '], text⟩ := .blank text (by decide)
  have hpieces : pieces (' ' :: text) = (.blank, [' ']) :: pieces text := pieces_of_lawful hblank
  rw [hpieces, readings_of_none rfl]

/-- Joined by single blanks, the lexemes that a lexer yields a value for are read as before. -/
theorem readings_pieces_intercalate (text : List Char) :
    readings (pieces ([' '].intercalate ((readings (pieces text)).map (·.1)))) =
      readings (pieces text) := by
  induction hpieces : pieces text generalizing text with
  | nil => exact congrArg readings (pieces.eq_def [])
  | cons found more ih =>
      obtain ⟨piece, lexeme⟩ := found
      obtain ⟨rest, -, hlawful, hrest⟩ := lawful_of_pieces hpieces
      have hmore := ih rest hrest
      cases hvalue : piece.value? with
      | none => rw [readings_of_none hvalue, hmore]
      | some value =>
          rw [readings_of_some hvalue, List.map_cons]
          cases hlexemes : readings more with
          | nil =>
              have halone := pieces_of_lawful (hlawful.of_prefix (List.nil_prefix))
              rw [List.append_nil, pieces] at halone
              rw [List.map_nil, List.intercalate_singleton, halone, readings_of_some hvalue]
              rfl
          | cons next lexemes =>
              -- Only the last piece can be a string literal that nothing closes.
              have hclosed : piece ≠ .fault .unterminatedString := by
                rintro rfl
                rw [hlawful.rest_eq_nil, pieces] at hrest
                rw [← hrest] at hlexemes
                cases hlexemes
              have hkept : piece.isSkipped = false := by
                rw [← Bool.not_eq_true, Piece.isSkipped_iff, hvalue]
                exact Option.some_ne_none value
              rw [hlexemes, List.map_cons] at hmore
              rw [List.map_cons, List.intercalate_cons_cons, List.append_assoc,
                List.singleton_append, pieces_of_lawful (hlawful.before_blank hkept hclosed _),
                readings_of_some hvalue, readings_pieces_blank, hmore]

/-- Scanned again and joined by single blanks, the lexemes of a text yield the values that the text
yields; and each lexeme by itself yields its own value. -/
theorem Lexer.values_of_lexemes (source : Source) :
    (ofText ([' '].intercalate
        ((ofText source.text).itemsBeforeEnd.map (·.span.lexemeIn source)))).items.map Item.value =
      (ofText source.text).itemsBeforeEnd.map Item.value ++ [.ok .endOfInput] ∧
    ∀ item ∈ (ofText source.text).itemsBeforeEnd,
      (ofText (item.span.lexemeIn source)).items.map Item.value = [item.value, .ok .endOfInput] := by
  have hreadings : (itemsOf 1 0 (pieces source.text)).map
      (fun item => (item.span.lexemeIn source, item.value)) = readings (pieces source.text) :=
    @map_itemsOf source [] _ (textOfPieces_pieces source.text).symm 1
  rw [itemsBeforeEnd_ofText]
  constructor
  · have hlexemes := congrArg (List.map (·.1)) hreadings
    rw [List.map_map] at hlexemes
    rw [map_value_itemsOf, ← map_snd_readings, ← readings_pieces_intercalate, ← hlexemes,
      map_snd_readings]
    exact map_value_items _
  · intro item hitem
    have hmem : (item.span.lexemeIn source, item.value) ∈ readings (pieces source.text) := by
      rw [← hreadings]
      exact List.mem_map.mpr ⟨item, hitem, rfl⟩
    obtain ⟨piece, hpiece, hvalue⟩ := exists_piece_of_mem_readings hmem
    rw [map_value_items, pieces_lexeme hpiece, ← map_snd_readings, readings_of_some hvalue]
    rfl

end Stacklet
