import Stacklet.Proofs.Token.Items
import Stacklet.Proofs.Token.Offsets

/-! # A lexer partitions its text

What a lexer yields and the gaps between make up the whole text. A gap is nothing by itself, either:
scanned as a text of its own it yields only the end of input.
-/

namespace Stacklet

/-- A text in which there is nothing to read: white space, comments and stray characters. -/
structure IsGap (gap : List Char) : Prop where
  items_eq : (Lexer.ofText gap).items.map Item.value = [.ok .endOfInput]
  skipped : ∀ piece ∈ pieces gap, piece.1.isSkipped = true

/-- A text that starts at an offset consists of the lexemes of some items, none of them empty, and
gaps before, between and behind them; the items have the spans of their lexemes. -/
inductive Partition : (offset : Nat) → List Item → (text : List Char) → Prop
  | gap {offset : Nat} {gap : List Char} (hgap : IsGap gap) : Partition offset [] gap
  | item {offset : Nat} {item : Item} {items : List Item} {gap lexeme rest : List Char}
      (hgap : IsGap gap) (hlexeme : lexeme ≠ [])
      (hstart : item.span.start = offset + byteLength gap)
      (hstop : item.span.stop = item.span.start + byteLength lexeme)
      (hrest : Partition item.span.stop items rest) :
      Partition offset (item :: items) (gap ++ (lexeme ++ rest))

theorem isGap_of_skipped {gap : List Char} (h : ∀ piece ∈ pieces gap, piece.1.isSkipped = true) :
    IsGap gap := by
  refine ⟨?_, h⟩
  have hnone : (pieces gap).filterMap (·.1.value?) = [] := by
    rw [List.filterMap_eq_nil_iff]
    intro piece hpiece
    have hskipped := h piece hpiece
    cases hkind : piece.1 with
    | blank => rfl
    | stray c => rfl
    | token read =>
        rw [hkind] at hskipped
        exact nomatch hskipped
    | fault error =>
        rw [hkind] at hskipped
        exact nomatch hskipped
  rw [Lexer.map_value_items, hnone, List.nil_append]

/-- The text from the last item on: it has pieces that were passed over, and more. -/
theorem partition_of_pieces {text : List Char} {skipped more : List (Piece × List Char)}
    (hpieces : pieces text = skipped ++ more)
    (hskipped : ∀ piece ∈ skipped, piece.1.isSkipped = true) (line offset : Nat) :
    Partition offset (Lexer.itemsOf line (offset + byteLength (textOfPieces skipped)) more)
      text := by
  induction more generalizing text skipped line offset with
  | nil =>
      rw [List.append_nil] at hpieces
      rw [← hpieces] at hskipped
      exact .gap (isGap_of_skipped hskipped)
  | cons found more ih =>
      obtain ⟨piece, lexeme⟩ := found
      cases hitem : piece.item?
          (piece.span line (offset + byteLength (textOfPieces skipped)) lexeme) with
      | none =>
          -- The gap grows by the piece.
          have hkind := Piece.item?_eq_none_iff.mp hitem
          have hlonger := @ih text (skipped ++ [(piece, lexeme)]) (by simpa using hpieces)
            (List.forall_mem_append.mpr ⟨hskipped, List.forall_mem_singleton.mpr hkind⟩)
            (line + newlines lexeme) offset
          rw [Lexer.itemsOf_of_isSkipped hkind]
          simpa [Nat.add_assoc] using hlonger
      | some item =>
          have hgap : pieces (textOfPieces skipped) = skipped :=
            @pieces_textOfPieces text [] skipped _ hpieces
          have hlexeme : pieces lexeme = [(piece, lexeme)] := by
            have hpiece := @pieces_textOfPieces text skipped [(piece, lexeme)] more hpieces
            rwa [textOfPieces_cons, textOfPieces_nil, List.append_nil] at hpiece
          have hmore : pieces (textOfPieces more) = more :=
            @pieces_textOfPieces text (skipped ++ [(piece, lexeme)]) more [] (by simpa using hpieces)
          have hspan := Piece.span_of_item? hitem
          have hrest := ih hmore (List.forall_mem_nil _) (line + newlines lexeme)
            item.span.stop
          rw [← textOfPieces_pieces text, hpieces, textOfPieces_append, textOfPieces_cons,
            Lexer.itemsOf_of_item? hitem]
          refine .item (isGap_of_skipped (hgap.symm ▸ hskipped)) ?_ ?_ ?_ ?_
          · rintro rfl
            rw [pieces] at hlexeme
            cases hlexeme
          · rw [hspan]
            rfl
          · rw [hspan]
            rfl
          · rw [hspan] at hrest ⊢
            exact hrest

namespace Partition

variable {offset : Nat} {items : List Item} {text : List Char}

theorem exists_lexeme (h : Partition offset items text) :
    ∀ item ∈ items, ∃ before lexeme behind, text = before ++ (lexeme ++ behind) ∧ lexeme ≠ [] ∧
      item.span.start = offset + byteLength before ∧
      item.span.stop = item.span.start + byteLength lexeme := by
  induction h with
  | gap _ => exact List.forall_mem_nil _
  | @item offset first items gap lexeme rest _ hlexeme hstart hstop _ ih =>
      refine List.forall_mem_cons.mpr ⟨⟨gap, lexeme, rest, rfl, hlexeme, hstart, hstop⟩, ?_⟩
      intro item hitem
      obtain ⟨before, found, behind, rfl, hfound, hitemStart, hitemStop⟩ := ih item hitem
      refine ⟨gap ++ (lexeme ++ before), found, behind, by simp, hfound, ?_, hitemStop⟩
      rw [hitemStart, hstop, hstart, byteLength_append, byteLength_append]
      omega

/-- Items stand one behind the other. -/
theorem pairwise (h : Partition offset items text) :
    items.Pairwise fun item later => item.span.stop ≤ later.span.start := by
  induction h with
  | gap _ => exact .nil
  | item _ _ _ _ hrest ih =>
      refine .cons ?_ ih
      intro later hlater
      obtain ⟨before, _, _, _, _, hstart, _⟩ := hrest.exists_lexeme later hlater
      omega

end Partition

/-- Asked again and again, a lexer yields some tokens and faults, then once the end of input, with
the empty span at the end of the text, and from then on nothing. None of the others is the end of
input. Their lexemes and gaps between them are the text, and a gap scanned by itself yields only the
end of input; their spans are slices of the text, not empty, and stand one behind the other. And a
scan that looks at the text through slices alone, each checked to be within the text and between
characters, comes to the same pieces. -/
theorem Lexer.partition_ofText (source : Source) :
    ∃ items : List Item,
      (∀ count, (ofText source.text).call count =
        (items ++ [.token ⟨.endOfInput, ⟨1 + newlines source.text, byteLength source.text,
          byteLength source.text⟩⟩])[count]?) ∧
      (∀ item ∈ items, item.value ≠ .ok .endOfInput) ∧
      Partition 0 items source.text ∧
      (∀ item ∈ items, item.span.start < item.span.stop ∧
        slice? source.text item.span.start item.span.stop = some (item.span.lexemeIn source)) ∧
      items.Pairwise (fun item later => item.span.stop ≤ later.span.start) ∧
      Offsets.scan source.text =
        some ((locate 1 0 (pieces source.text)).map Offsets.ofLocated) := by
  have hpartition : Partition 0 (itemsOf 1 0 (pieces source.text)) source.text :=
    @partition_of_pieces source.text [] _ rfl (List.forall_mem_nil _) 1 0
  refine ⟨itemsOf 1 0 (pieces source.text), ?_, fun item => value_ne_endOfInput, hpartition, ?_,
    hpartition.pairwise, Offsets.scan_eq source.text⟩
  · intro count
    rw [call_eq_getElem?, items_ofText]
  · intro item hitem
    obtain ⟨before, lexeme, behind, htext, hlexeme, hstart, hstop⟩ :=
      hpartition.exists_lexeme item hitem
    rw [Nat.zero_add] at hstart
    have hslice : slice? source.text item.span.start item.span.stop = some lexeme := by
      rw [hstop, hstart, htext]
      exact slice?_append before lexeme behind
    rw [lexemeIn_of_slice? hslice, hstop]
    exact ⟨Nat.lt_add_of_pos_right (byteLength_pos hlexeme), hstop ▸ hslice⟩

end Stacklet
