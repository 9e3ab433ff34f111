import Stacklet.Proofs.Token.Cuts

/-! # What a lexer yields

Asked again and again, a lexer yields the tokens and faults among the pieces of its text, in order
and where they stand, then the end of input, and then nothing more.
-/

namespace Stacklet

namespace Item

/-- What was yielded, wherever it stands. -/
def value : Item → Except LexError Token
  | token read => .ok read.value
  | fault error => .error error.value

/-- Where it stands. -/
def span : Item → Span
  | token read => read.span
  | fault error => error.span

end Item

/-- What a lexer yields for a piece in its place. -/
def Piece.item? : Piece → Span → Option Item
  | .token read, span => some (.token ⟨read, span⟩)
  | .fault error, span => some (.fault ⟨error, span⟩)
  | .blank, _ | .stray _, _ => none

/-- The value that a lexer yields for a piece. -/
def Piece.value? : Piece → Option (Except LexError Token)
  | .token read => some (.ok read)
  | .fault error => some (.error error)
  | .blank | .stray _ => none

theorem Piece.item?_eq_none_iff {piece : Piece} {span : Span} :
    piece.item? span = none ↔ piece.isSkipped = true := by
  cases piece <;> simp [item?, isSkipped]

theorem Piece.span_of_item? {piece : Piece} {span : Span} {item : Item}
    (h : piece.item? span = some item) : item.span = span := by
  cases piece <;> cases h <;> rfl

namespace Lexer

/-- What a lexer yields when it is asked for the time with the given number, counted from zero. -/
def call (lexer : Lexer) : Nat → Option Item
  | 0 => lexer.next.item
  | count + 1 => lexer.next.lexer.call count

/-- How often a lexer can still yield something. -/
def remaining (lexer : Lexer) : Nat :=
  if lexer.finished then 0 else lexer.pending.length + 1

theorem remaining_stepFrom (finish : Span) (pending : List (Located Piece)) :
    (stepFrom finish pending).lexer.remaining ≤ pending.length := by
  induction pending with
  | nil => rfl
  | cons first pending ih =>
      obtain ⟨piece, span⟩ := first
      cases piece with
      | blank => exact ih.trans (Nat.le_succ _)
      | stray c => exact ih.trans (Nat.le_succ _)
      | token read => exact Nat.le_refl _
      | fault error => exact Nat.le_refl _

theorem remaining_next {lexer : Lexer} {item : Item} (h : lexer.next.item = some item) :
    lexer.next.lexer.remaining < lexer.remaining := by
  rw [next] at h ⊢
  split at h
  next => exact nomatch h
  next hfinished =>
    have hremaining : lexer.remaining = lexer.pending.length + 1 := if_neg hfinished
    rw [if_neg hfinished, hremaining]
    exact Nat.lt_succ_of_le (remaining_stepFrom _ _)

/-- All that a lexer yields until it yields nothing. -/
def items (lexer : Lexer) : List Item :=
  match _hitem : lexer.next.item with
  | some item => item :: lexer.next.lexer.items
  | none => []
termination_by lexer.remaining
decreasing_by exact remaining_next _hitem

theorem items_of_some {lexer : Lexer} {item : Item} (h : lexer.next.item = some item) :
    lexer.items = item :: lexer.next.lexer.items := by
  rw [items]
  split
  next other hother => rw [Option.some.inj (hother.symm.trans h)]
  next hother => exact nomatch hother.symm.trans h

theorem items_of_none {lexer : Lexer} (h : lexer.next.item = none) : lexer.items = [] := by
  rw [items]
  split
  next other hother => exact nomatch hother.symm.trans h
  next => rfl

theorem next_of_finished {lexer : Lexer} (h : lexer.finished = true) :
    lexer.next = ⟨[], none, lexer⟩ :=
  if_pos h

theorem call_of_finished {lexer : Lexer} (h : lexer.finished = true) (count : Nat) :
    lexer.call count = none := by
  induction count with
  | zero => rw [call, next_of_finished h]
  | succ count ih => rw [call, next_of_finished h, ih]

theorem item_stepFrom_ne_none (finish : Span) (pending : List (Located Piece)) :
    (stepFrom finish pending).item ≠ none := by
  induction pending with
  | nil => exact nofun
  | cons first pending ih =>
      obtain ⟨piece, span⟩ := first
      cases piece with
      | blank => exact ih
      | stray c => exact ih
      | token read => exact nofun
      | fault error => exact nofun

theorem finished_of_item_eq_none {lexer : Lexer} (h : lexer.next.item = none) :
    lexer.finished = true := by
  rw [next] at h
  split at h
  next hfinished => exact hfinished
  next => exact absurd h (item_stepFrom_ne_none _ _)

/-- Every call yields the next of the items, and behind the last one nothing. -/
theorem call_eq_getElem? (lexer : Lexer) (count : Nat) : lexer.call count = lexer.items[count]? := by
  induction count generalizing lexer with
  | zero =>
      cases hitem : lexer.next.item with
      | some item => rw [call, hitem, items_of_some hitem, List.getElem?_cons_zero]
      | none => rw [call, hitem, items_of_none hitem, List.getElem?_nil]
  | succ count ih =>
      cases hitem : lexer.next.item with
      | some item => rw [call, ih, items_of_some hitem, List.getElem?_cons_succ]
      | none =>
          rw [call_of_finished (finished_of_item_eq_none hitem), items_of_none hitem,
            List.getElem?_nil]

/-- Only what the next call comes to matters for what is yielded. -/
theorem items_congr {lexer other : Lexer} (hitem : lexer.next.item = other.next.item)
    (hlexer : lexer.next.lexer = other.next.lexer) : lexer.items = other.items := by
  cases hother : other.next.item with
  | some item => rw [items_of_some (hitem.trans hother), items_of_some hother, hlexer]
  | none => rw [items_of_none (hitem.trans hother), items_of_none hother]

/-- A lexer that has not finished yields the tokens and faults among its pieces, and the end. -/
theorem items_eq (pending : List (Located Piece)) (finish : Span) :
    items ⟨pending, finish, false⟩ =
      pending.filterMap (fun piece => piece.value.item? piece.span) ++
        [.token ⟨.endOfInput, finish⟩] := by
  induction pending with
  | nil =>
      have hend : items ⟨[], finish, true⟩ = [] := items_of_none rfl
      rw [items_of_some rfl]
      exact congrArg _ hend
  | cons first pending ih =>
      obtain ⟨piece, span⟩ := first
      cases piece with
      | blank =>
          have hskip : items ⟨⟨.blank, span⟩ :: pending, finish, false⟩ =
              items ⟨pending, finish, false⟩ := items_congr rfl rfl
          exact hskip.trans ih
      | stray c =>
          have hskip : items ⟨⟨.stray c, span⟩ :: pending, finish, false⟩ =
              items ⟨pending, finish, false⟩ := items_congr rfl rfl
          exact hskip.trans ih
      | token read => exact (items_of_some rfl).trans (congrArg _ ih)
      | fault error => exact (items_of_some rfl).trans (congrArg _ ih)

/-- The items among pieces in their places. -/
def itemsOf (line offset : Nat) (pieces : List (Piece × List Char)) : List Item :=
  (locate line offset pieces).filterMap fun piece => piece.value.item? piece.span

theorem itemsOf_of_isSkipped {piece : Piece} (h : piece.isSkipped = true) (line offset : Nat)
    (lexeme : List Char) (more : List (Piece × List Char)) :
    itemsOf line offset ((piece, lexeme) :: more) =
      itemsOf (line + newlines lexeme) (offset + byteLength lexeme) more := by
  have hnone : piece.item? (piece.span line offset lexeme) = none := Piece.item?_eq_none_iff.mpr h
  simp [itemsOf, locate, hnone]

theorem itemsOf_of_item? {piece : Piece} {line offset : Nat} {lexeme : List Char} {item : Item}
    (h : piece.item? (piece.span line offset lexeme) = some item)
    (more : List (Piece × List Char)) :
    itemsOf line offset ((piece, lexeme) :: more) =
      item :: itemsOf (line + newlines lexeme) (offset + byteLength lexeme) more := by
  simp [itemsOf, locate, h]

theorem itemsOf_cons (line offset : Nat) (piece : Piece) (lexeme : List Char)
    (more : List (Piece × List Char)) :
    itemsOf line offset ((piece, lexeme) :: more) =
      (piece.item? (piece.span line offset lexeme)).toList ++
        itemsOf (line + newlines lexeme) (offset + byteLength lexeme) more := by
  cases hitem : piece.item? (piece.span line offset lexeme) with
  | none => exact itemsOf_of_isSkipped (Piece.item?_eq_none_iff.mp hitem) line offset lexeme more
  | some item => exact itemsOf_of_item? hitem more

/-- Every item comes from a piece, in the place that the pieces before make. -/
theorem exists_piece_of_mem_itemsOf {line offset : Nat} {pieces : List (Piece × List Char)}
    {item : Item} (h : item ∈ itemsOf line offset pieces) :
    ∃ before piece lexeme behind, pieces = before ++ (piece, lexeme) :: behind ∧
      piece.item? (piece.span (line + newlines (textOfPieces before))
        (offset + byteLength (textOfPieces before)) lexeme) = some item := by
  induction pieces generalizing line offset with
  | nil => cases h
  | cons found more ih =>
      obtain ⟨piece, lexeme⟩ := found
      rw [itemsOf_cons, List.mem_append, Option.mem_toList] at h
      rcases h with h | h
      · exact ⟨[], piece, lexeme, more, rfl, h⟩
      · obtain ⟨before, other, own, behind, rfl, hitem⟩ := ih h
        refine ⟨(piece, lexeme) :: before, other, own, behind, rfl, ?_⟩
        rwa [textOfPieces_cons, newlines_append, byteLength_append, ← Nat.add_assoc,
          ← Nat.add_assoc]

theorem items_ofText (text : List Char) :
    (ofText text).items =
      itemsOf 1 0 (pieces text) ++
        [.token ⟨.endOfInput, ⟨1 + newlines text, byteLength text, byteLength text⟩⟩] :=
  items_eq _ _

theorem map_value_itemsOf (line offset : Nat) (pieces : List (Piece × List Char)) :
    (itemsOf line offset pieces).map Item.value = pieces.filterMap (·.1.value?) := by
  induction pieces generalizing line offset with
  | nil => rfl
  | cons found more ih =>
      obtain ⟨piece, lexeme⟩ := found
      have hmore := ih (line + newlines lexeme) (offset + byteLength lexeme)
      cases piece <;>
        simpa [itemsOf, locate, Piece.item?, Piece.value?, Item.value] using hmore

/-- The values that a lexer yields for a text are those of its pieces, and the end of input. -/
theorem map_value_items (text : List Char) :
    (ofText text).items.map Item.value =
      (pieces text).filterMap (·.1.value?) ++ [.ok .endOfInput] := by
  rw [items_ofText, List.map_append, map_value_itemsOf]
  rfl

/-- No piece of a text is the end of input. -/
theorem value_ne_endOfInput {text : List Char} {item : Item}
    (h : item ∈ itemsOf 1 0 (pieces text)) : item.value ≠ .ok .endOfInput := by
  intro hend
  have hvalue : item.value ∈ (itemsOf 1 0 (pieces text)).map Item.value := List.mem_map_of_mem h
  rw [map_value_itemsOf, List.mem_filterMap] at hvalue
  obtain ⟨⟨piece, lexeme⟩, hpiece, hitem⟩ := hvalue
  have hne : piece ≠ .token .endOfInput :=
    @forall_mem_pieces (fun piece _ => piece ≠ .token .endOfInput)
      (fun hlawful => hlawful.piece_ne_endOfInput) text (piece, lexeme) hpiece
  rw [hend] at hitem
  cases piece with
  | token read =>
      cases hitem
      exact hne rfl
  | _ => exact nomatch hitem

end Lexer

end Stacklet
