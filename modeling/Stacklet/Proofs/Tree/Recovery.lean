import Mathlib.Logic.Function.Iterate
import Stacklet.Tree.Cursor

/-! # Recovery as a loop

Recovery from an error passes a token, and then one token after the other up to a boundary. Nothing
bounds that loop: behind the end of a stream it meets the last token for ever. It ends if and only
if there is a boundary ahead or the last token makes one. Every declaration that is open at an error
recovers in its turn, from where the one within it ended up.
-/

namespace Stacklet

/-- Whether recovery may stop because of a token: behind it or before it. -/
def Token.stopsRecovery (token : Token) : Bool :=
  token = .symbol .semicolon || Cursor.startsStatement token

/-- The boundaries between neighbouring tokens: behind a semicolon, or before a statement. -/
def breaks : List (Located Token) → Nat
  | first :: second :: rest =>
    (if first.value = .symbol .semicolon ∨ Cursor.startsStatement second.value = true then 1 else 0)
      + breaks (second :: rest)
  | _ => 0

namespace Cursor

variable {cursor stop : Cursor}

/-! ## The loop -/

/-- A loop that passes tokens until there is a boundary ends at a cursor. -/
inductive Skips : Cursor → Cursor → Prop
  | stop {cursor : Cursor} (h : cursor.atBoundary = true) : Skips cursor cursor
  | pass {cursor stop : Cursor} (h : cursor.atBoundary = false)
      (hmore : Skips cursor.advance stop) : Skips cursor stop

theorem Skips.unique {other : Cursor} (h : cursor.Skips stop) (hother : cursor.Skips other) :
    stop = other := by
  induction h with
  | stop h =>
      cases hother with
      | stop => rfl
      | pass hnot => cases h.symm.trans hnot
  | pass h _ ih =>
      cases hother with
      | stop hboundary => cases hboundary.symm.trans h
      | pass _ hmore => exact ih hmore

theorem Skips.exists_atBoundary (h : cursor.Skips stop) :
    ∃ count, (advance^[count] cursor).atBoundary = true := by
  induction h with
  | stop h => exact ⟨0, h⟩
  | pass _ _ ih =>
      obtain ⟨count, hcount⟩ := ih
      exact ⟨count + 1, hcount⟩

theorem skips_of_skipToBoundary {bound : Nat} (h : cursor.skipToBoundary bound = some stop) :
    cursor.Skips stop := by
  induction bound generalizing cursor with
  | zero =>
      rw [skipToBoundary, Option.ite_none_right_eq_some] at h
      obtain ⟨hboundary, hstop⟩ := h
      cases hstop
      exact .stop hboundary
  | succ bound ih =>
      rw [skipToBoundary] at h
      split at h
      next hboundary =>
        cases h
        exact .stop hboundary
      next hnot => exact .pass (Bool.eq_false_iff.mpr hnot) (ih h)

/-- A token is passed unless it is the end of input. -/
theorem advance_of_not_atEnd (h : cursor.atEnd = false) :
    cursor.advance = ⟨cursor.rest.tail, cursor.last, cursor.peek⟩ := by
  rw [advance, h]
  rfl

/-- The end of input is a boundary. -/
theorem atEnd_of_not_atBoundary (h : cursor.atBoundary = false) : cursor.atEnd = false := by
  rw [atBoundary, Bool.or_eq_false_iff, Bool.or_eq_false_iff] at h
  exact h.1.1

theorem length_advance_le (cursor : Cursor) :
    cursor.advance.rest.length ≤ cursor.rest.length := by
  rw [advance]
  split
  · exact Nat.le_refl _
  · rw [List.length_tail]
    exact Nat.sub_le _ 1

/-- Behind the end of a stream there is only its last token to pass. -/
theorem advance_of_nil (last previous : Located Token) :
    advance ⟨[], last, previous⟩ = ⟨[], last, last⟩ := by
  rw [advance]
  split <;> rfl

theorem iterate_advance_of_nil (last previous : Located Token) (count : Nat) :
    advance^[count + 1] ⟨[], last, previous⟩ = ⟨[], last, last⟩ := by
  induction count with
  | zero => exact advance_of_nil last previous
  | succ count ih => rw [Function.iterate_succ_apply', ih, advance_of_nil]

theorem not_atBoundary_of_skipToBoundary {bound : Nat} (h : cursor.skipToBoundary bound = none) :
    cursor.atBoundary = false := by
  rw [Bool.eq_false_iff]
  intro hboundary
  cases bound <;> simp [skipToBoundary, hboundary] at h

/-- When neither the tokens ahead nor the last one make a boundary, there never is one. -/
theorem never_atBoundary_of_skipToBoundary {bound : Nat} (hbound : cursor.rest.length < bound)
    (h : cursor.skipToBoundary bound = none) (count : Nat) :
    (advance^[count] cursor).atBoundary = false := by
  induction bound generalizing cursor count with
  | zero => cases hbound
  | succ bound ih =>
      have hhere := not_atBoundary_of_skipToBoundary h
      rw [skipToBoundary, hhere] at h
      cases count with
      | zero => exact hhere
      | succ count =>
          obtain ⟨_ | ⟨token, rest⟩, last, previous⟩ := cursor
          · -- Behind the end the second look is the same as all later ones.
            rw [iterate_advance_of_nil, ← advance_of_nil last previous]
            exact not_atBoundary_of_skipToBoundary h
          · rw [Function.iterate_succ_apply]
            apply ih _ h
            rw [advance_of_not_atEnd (atEnd_of_not_atBoundary hhere)]
            exact Nat.lt_of_succ_lt_succ hbound

/-- Recovery comes to no end if and only if the loop never comes to a boundary. -/
theorem synchronize_eq_none_iff :
    cursor.synchronize = none ↔ ∀ count, (advance^[count + 1] cursor).atBoundary = false := by
  constructor
  · intro h count
    apply never_atBoundary_of_skipToBoundary _ h
    have hlength := length_advance_le cursor
    omega
  · intro h
    rw [Option.eq_none_iff_forall_ne_some]
    intro stop hstop
    obtain ⟨count, hcount⟩ := (skips_of_skipToBoundary hstop).exists_atBoundary
    cases hcount.symm.trans (h count)

/-- Recovery ends where the loop does, if it does. -/
theorem synchronize_eq_some_iff : cursor.synchronize = some stop ↔ cursor.advance.Skips stop := by
  constructor
  · exact skips_of_skipToBoundary
  · intro h
    cases hsynchronize : cursor.synchronize with
    | none =>
        obtain ⟨count, hcount⟩ := h.exists_atBoundary
        cases hcount.symm.trans (synchronize_eq_none_iff.mp hsynchronize count)
    | some other => rw [(skips_of_skipToBoundary hsynchronize).unique h]

/-! ## Streams without the end of input -/

/-- A cursor in a stream that lacks the end of input. -/
structure Truncated (cursor : Cursor) : Prop where
  rest_ne : ∀ token ∈ cursor.rest, token.value ≠ .endOfInput
  last_ne : cursor.last.value ≠ .endOfInput
  eq_last : ∀ token ∈ cursor.rest.getLast?, token = cursor.last

namespace Truncated

theorem peek_ne (h : cursor.Truncated) : cursor.peek.value ≠ .endOfInput := by
  obtain ⟨_ | ⟨token, rest⟩, last, previous⟩ := cursor
  · exact h.last_ne
  · exact h.rest_ne token List.mem_cons_self

theorem not_atEnd (h : cursor.Truncated) : cursor.atEnd = false :=
  decide_eq_false h.peek_ne

theorem advance_eq (h : cursor.Truncated) :
    cursor.advance = ⟨cursor.rest.tail, cursor.last, cursor.peek⟩ :=
  advance_of_not_atEnd h.not_atEnd

theorem advance (h : cursor.Truncated) : cursor.advance.Truncated := by
  rw [h.advance_eq]
  constructor
  · intro token htoken
    exact h.rest_ne token (List.mem_of_mem_tail htoken)
  · exact h.last_ne
  · intro token htoken
    apply h.eq_last
    rw [Option.mem_def, List.getLast?_tail] at htoken
    split at htoken
    · cases htoken
    · exact htoken

/-- Behind a token that was passed, the last token of the stream is the last one ahead, or that
token itself. -/
theorem getLast?_advance (h : cursor.Truncated) :
    (cursor.advance.previous :: cursor.advance.rest).getLast? = some cursor.last := by
  rw [h.advance_eq]
  obtain ⟨_ | ⟨token, rest⟩, last, previous⟩ := cursor
  · rfl
  · have hlast := h.eq_last _ (List.getLast?_eq_some_getLast (List.cons_ne_nil token rest))
    exact (List.getLast?_eq_some_getLast (List.cons_ne_nil token rest)).trans (congrArg some hlast)

theorem breaks_advance (h : cursor.Truncated) :
    breaks (cursor.advance.previous :: cursor.advance.rest) = breaks cursor.rest := by
  rw [h.advance_eq]
  obtain ⟨_ | ⟨token, rest⟩, last, previous⟩ := cursor <;> rfl

/-- In the end, what is passed is the last token. -/
theorem iterate_advance_length (h : cursor.Truncated) :
    Cursor.advance^[cursor.rest.length + 1] cursor = ⟨[], cursor.last, cursor.last⟩ := by
  obtain ⟨rest, last, previous⟩ := cursor
  induction rest generalizing previous with
  | nil => exact advance_of_nil last previous
  | cons token rest ih =>
      have hadvance := h.advance
      rw [Function.iterate_succ_apply]
      rw [h.advance_eq] at hadvance ⊢
      exact ih token hadvance

theorem of_skips (h : cursor.Skips stop) (hcursor : cursor.Truncated) :
    stop.Truncated ∧ stop.last = cursor.last := by
  induction h with
  | stop => exact ⟨hcursor, rfl⟩
  | pass _ _ ih =>
      obtain ⟨hstop, hlast⟩ := ih hcursor.advance
      rw [hcursor.advance_eq] at hlast
      exact ⟨hstop, hlast⟩

/-- The last token makes a boundary if recovery may stop because of it. -/
theorem exists_synchronize (h : cursor.Truncated) (hlast : cursor.last.value.stopsRecovery = true) :
    ∃ stop, cursor.synchronize = some stop := by
  cases hsynchronize : cursor.synchronize with
  | some stop => exact ⟨stop, rfl⟩
  | none =>
      have hnever := synchronize_eq_none_iff.mp hsynchronize cursor.rest.length
      rw [h.iterate_advance_length] at hnever
      rw [Token.stopsRecovery, Bool.or_eq_true] at hlast
      rw [atBoundary, Bool.or_assoc, Bool.or_eq_false_iff, Bool.or_eq_false_iff] at hnever
      rcases hlast with hsemicolon | hstarts
      · cases hsemicolon.symm.trans hnever.2.1
      · cases hstarts.symm.trans hnever.2.2

end Truncated

/-! ## Boundaries ahead -/

/-- A cursor behind a token it has just passed in a truncated stream whose last token makes no
boundary. -/
structure Skipping (cursor : Cursor) : Prop extends cursor.Truncated where
  getLast_eq : (cursor.previous :: cursor.rest).getLast? = some cursor.last
  not_stops : cursor.last.value.stopsRecovery = false

namespace Skipping

theorem advance (h : cursor.Skipping) : cursor.advance.Skipping := by
  have hadvance := h.toTruncated.advance_eq
  constructor
  · exact h.toTruncated.advance
  · rw [h.toTruncated.getLast?_advance, hadvance]
  · rw [hadvance]
    exact h.not_stops

/-- At the end of such a stream there is no boundary. -/
theorem not_atBoundary_of_nil {last previous : Located Token}
    (h : Skipping ⟨[], last, previous⟩) : atBoundary ⟨[], last, previous⟩ = false := by
  have hprevious : previous = last := Option.some.inj h.getLast_eq
  have hstops := h.not_stops
  rw [Token.stopsRecovery] at hstops
  rw [atBoundary, h.toTruncated.not_atEnd, Bool.false_or, hprevious]
  exact hstops

/-- Passing a token passes the boundary behind it, if there is one. -/
theorem breaks_cons (h : cursor.Skipping) :
    breaks (cursor.previous :: cursor.rest) =
      (if cursor.atBoundary then 1 else 0) + breaks cursor.rest := by
  obtain ⟨_ | ⟨token, rest⟩, last, previous⟩ := cursor
  · rw [h.not_atBoundary_of_nil]
    rfl
  · have hboundary : atBoundary ⟨token :: rest, last, previous⟩ =
        (decide (previous.value = .symbol .semicolon) || startsStatement token.value) := by
      rw [atBoundary, h.toTruncated.not_atEnd]
      rfl
    rw [hboundary, breaks]
    simp only [Bool.or_eq_true, decide_eq_true_eq]

/-- A loop that ends has passed the tokens up to the first boundary. -/
theorem breaks_of_skips (h : cursor.Skips stop) (hcursor : cursor.Skipping) :
    breaks (cursor.previous :: cursor.rest) = breaks stop.rest + 1 := by
  induction h with
  | stop hboundary =>
      rw [hcursor.breaks_cons, hboundary, if_pos rfl, Nat.add_comm]
  | pass hnot _ ih =>
      rw [hcursor.breaks_cons, hnot, ← hcursor.toTruncated.breaks_advance, ih hcursor.advance]
      exact Nat.zero_add _

/-- A loop that never comes to a boundary has none ahead. -/
theorem breaks_of_never (h : cursor.Skipping)
    (hnever : ∀ count, (Cursor.advance^[count] cursor).atBoundary = false) :
    breaks (cursor.previous :: cursor.rest) = 0 := by
  induction hrest : cursor.rest generalizing cursor with
  | nil => rfl
  | cons token rest ih =>
      have hadvance : cursor.advance.rest = rest := by
        rw [h.toTruncated.advance_eq, hrest, List.tail_cons]
      have hbehind := ih h.advance (fun count => hnever (count + 1)) hadvance
      have hhere : cursor.atBoundary = false := hnever 0
      rw [← hrest, h.breaks_cons, hhere, ← h.toTruncated.breaks_advance, hadvance, hbehind]
      rfl

end Skipping

/-! ## Recovery from within -/

/-- Recovery of one declaration after the other, from the innermost outwards. -/
def recover : (times : Nat) → Cursor → Option Cursor
  | 0, cursor => some cursor
  | times + 1, cursor => cursor.synchronize.bind (recover times)

theorem recover_bind_synchronize (times : Nat) (cursor : Cursor) :
    (recover times cursor).bind synchronize = recover (times + 1) cursor := by
  induction times generalizing cursor with
  | zero =>
      rw [recover, Option.bind_some, recover]
      exact (Option.bind_fun_some _).symm
  | succ times ih =>
      rw [recover, Option.bind_assoc, funext ih]
      rfl

theorem Skips.eq_of_advance_eq (h : cursor.Skips stop) (hfixed : cursor.advance = cursor) :
    stop = cursor := by
  induction h with
  | stop => rfl
  | pass _ _ ih =>
      rw [hfixed] at ih
      exact ih hfixed

/-- Behind the end of a stream, recovery leads to where it starts from anew. -/
theorem synchronize_bind_of_nil (last previous : Located Token) :
    (synchronize ⟨[], last, previous⟩).bind synchronize = synchronize ⟨[], last, previous⟩ := by
  have hsame : synchronize ⟨[], last, last⟩ = synchronize ⟨[], last, previous⟩ := by
    rw [synchronize, synchronize, advance_of_nil, advance_of_nil]
  cases hstop : synchronize ⟨[], last, previous⟩ with
  | none => rfl
  | some stop =>
      have hskips := synchronize_eq_some_iff.mp hstop
      rw [advance_of_nil] at hskips
      rw [hskips.eq_of_advance_eq (advance_of_nil last last)] at hstop ⊢
      exact hsame.trans hstop

theorem recover_of_nil (last previous : Located Token) (times : Nat) :
    recover (times + 1) ⟨[], last, previous⟩ = synchronize ⟨[], last, previous⟩ := by
  induction times with
  | zero => exact Option.bind_fun_some _
  | succ times ih => rw [← recover_bind_synchronize, ih, synchronize_bind_of_nil]

/-- A recovery that ends takes one boundary, and one that does not has none ahead. -/
theorem Truncated.breaks_synchronize (h : cursor.Truncated)
    (hlast : cursor.last.value.stopsRecovery = false) :
    breaks cursor.rest = cursor.synchronize.elim 0 fun stop => breaks stop.rest + 1 := by
  have hskipping : cursor.advance.Skipping := by
    constructor
    · exact h.advance
    · rw [h.getLast?_advance, h.advance_eq]
    · rw [h.advance_eq]
      exact hlast
  rw [← h.breaks_advance]
  cases hsynchronize : cursor.synchronize with
  | none => exact hskipping.breaks_of_never (synchronize_eq_none_iff.mp hsynchronize)
  | some stop => exact Skipping.breaks_of_skips (synchronize_eq_some_iff.mp hsynchronize) hskipping

/-- In a truncated stream each recovery takes a boundary of its own, unless the last token makes
one. -/
theorem Truncated.isSome_recover_iff (h : cursor.Truncated) (times : Nat) :
    (recover times cursor).isSome = true ↔
      cursor.last.value.stopsRecovery = true ∨ times ≤ breaks cursor.rest := by
  induction times generalizing cursor with
  | zero => exact iff_of_true rfl (.inr (Nat.zero_le _))
  | succ times ih =>
      rw [recover]
      cases hsynchronize : cursor.synchronize with
      | none =>
          -- A recovery without an end shows that the last token makes no boundary.
          have hlast : cursor.last.value.stopsRecovery = false := by
            rw [Bool.eq_false_iff]
            intro hlast
            obtain ⟨stop, hstop⟩ := h.exists_synchronize hlast
            cases hsynchronize.symm.trans hstop
          have hbreaks := h.breaks_synchronize hlast
          rw [hsynchronize, Option.elim_none] at hbreaks
          simp [hlast, hbreaks]
      | some stop =>
          obtain ⟨hstop, hlast⟩ := Truncated.of_skips (synchronize_eq_some_iff.mp hsynchronize)
            h.advance
          rw [h.advance_eq] at hlast
          rw [Option.bind_some, ih hstop, hlast]
          apply or_congr_right'
          intro hnot
          have hbreaks := h.breaks_synchronize (Bool.eq_false_iff.mpr hnot)
          rw [hsynchronize, Option.elim_some] at hbreaks
          rw [hbreaks, Nat.add_le_add_iff_right]

end Cursor

end Stacklet
