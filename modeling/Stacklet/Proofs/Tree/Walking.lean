import Stacklet.Proofs.Tree.Recovery
import Stacklet.Proofs.Tree.Refusals

/-! # Walking through a truncated stream

A stream that lacks the end of input repeats its last token, so a reader may pass that token more
than once. Different tokens are passed only while there are tokens ahead. This is what makes lists,
chains and nested rules end. A reader that fails has passed some tokens, and the declarations that
it entered and has not left are those whose braces are open behind these tokens.
-/

namespace Stacklet

/-! ## Open braces -/

/-- What a brace begins. -/
inductive Brace where
  | block
  | classBody
deriving DecidableEq, Repr

/-- What is open behind some tokens: a class heading, maybe, and braces, innermost first. -/
structure Opened where
  heading : Bool
  braces : List Brace
deriving DecidableEq, Repr

namespace Opened

/-- What is open behind one more token. The brace behind a class heading begins a class body. -/
def pass (opened : Opened) : Token → Opened
  | .keyword .kwClass => { opened with heading := true }
  | .symbol .openCurly => ⟨false, (if opened.heading then .classBody else .block) :: opened.braces⟩
  | .symbol .closeCurly => { opened with braces := opened.braces.tail }
  | _ => opened

/-- What is open behind some more tokens. -/
def passAll (opened : Opened) (tokens : List Token) : Opened :=
  tokens.foldl pass opened

theorem passAll_append (opened : Opened) (front back : List Token) :
    opened.passAll (front ++ back) = (opened.passAll front).passAll back :=
  List.foldl_append

/-- The blocks that are open. -/
def blocks (opened : Opened) : Nat :=
  opened.braces.count .block

end Opened

/-- The declarations that are open behind the tokens of a program: one at the top, and one in each
block. In a class body there are methods, which are no declarations of their own. -/
def openDeclarations (tokens : List Token) : Nat :=
  (Opened.passAll ⟨false, []⟩ tokens).blocks + 1

/-! ## Tokens passed -/

/-- Some tokens are not all the same. -/
def Varied (tokens : List Token) : Prop :=
  ∃ first ∈ tokens, ∃ second ∈ tokens, first ≠ second

theorem varied_cons {token other : Token} {tokens : List Token} (h : other ∈ tokens)
    (hne : token ≠ other) : Varied (token :: tokens) :=
  ⟨token, List.mem_cons_self, other, List.mem_cons_of_mem token h, hne⟩

namespace Cursor

variable {cursor reached : Cursor} {passed : List Token}

/-- A cursor reached by passing some tokens, one at a time. -/
inductive Walks : Cursor → List Token → Cursor → Prop
  | nil (cursor : Cursor) : Walks cursor [] cursor
  | cons {cursor reached : Cursor} {passed : List Token} (h : Walks cursor.advance passed reached) :
      Walks cursor (cursor.peek.value :: passed) reached

namespace Walks

theorem cons_of_eq {token : Token} (hpeek : cursor.peek.value = token)
    (h : cursor.advance.Walks passed reached) : cursor.Walks (token :: passed) reached :=
  hpeek ▸ .cons h

theorem append {middle : Cursor} {front back : List Token} (hfront : cursor.Walks front middle)
    (hback : middle.Walks back reached) : cursor.Walks (front ++ back) reached := by
  induction hfront with
  | nil => exact hback
  | cons _ ih => exact .cons (ih hback)

theorem truncated (h : cursor.Walks passed reached) (hcursor : cursor.Truncated) :
    reached.Truncated := by
  induction h with
  | nil => exact hcursor
  | cons _ ih => exact ih hcursor.advance

theorem last_eq (h : cursor.Walks passed reached) (hcursor : cursor.Truncated) :
    reached.last = cursor.last := by
  induction h with
  | nil => rfl
  | cons _ ih =>
      rw [ih hcursor.advance, hcursor.advance_eq]

theorem length_le (h : cursor.Walks passed reached) :
    reached.rest.length ≤ cursor.rest.length := by
  induction h with
  | nil => exact Nat.le_refl _
  | cons _ ih => exact ih.trans (length_advance_le _)

/-- Behind the end of a stream all that is passed is its last token. -/
theorem eq_last (h : cursor.Walks passed reached) (hcursor : cursor.Truncated)
    (hrest : cursor.rest = []) : ∀ token ∈ passed, token = cursor.last.value := by
  induction h with
  | nil => exact List.forall_mem_nil _
  | @cons cursor reached passed _ ih =>
      have hpeek : cursor.peek = cursor.last := by rw [peek, hrest, List.headD_nil]
      rw [hcursor.advance_eq, hrest] at ih
      rw [List.forall_mem_cons]
      have hadvance := hcursor.advance
      rw [hcursor.advance_eq, hrest] at hadvance
      exact ⟨congrArg Located.value hpeek, ih hadvance rfl⟩

/-- Different tokens are passed only while there are tokens ahead. -/
theorem length_lt (h : cursor.Walks passed reached) (hcursor : cursor.Truncated)
    (hpassed : Varied passed) : reached.rest.length < cursor.rest.length := by
  obtain ⟨first, hfirst, second, hsecond, hne⟩ := hpassed
  cases h with
  | nil => cases hfirst
  | cons hmore =>
      cases hrest : cursor.rest with
      | nil =>
          have hlast := (Walks.cons hmore).eq_last hcursor hrest
          exact absurd ((hlast first hfirst).trans (hlast second hsecond).symm) hne
      | cons token rest =>
          have hlength := hmore.length_le
          rw [hcursor.advance_eq, hrest, List.tail_cons] at hlength
          exact Nat.lt_succ_of_le hlength

/-- What is passed are the first ones of the tokens ahead, and behind them the last one again. -/
theorem exists_front (h : cursor.Walks passed reached) (hcursor : cursor.Truncated) :
    ∃ front more, cursor.rest = front ++ reached.rest ∧ passed = front.map (·.value) ++ more ∧
      (more ≠ [] → reached.rest = []) := by
  induction h with
  | nil cursor => exact ⟨[], [], rfl, rfl, fun hmore => absurd rfl hmore⟩
  | @cons cursor reached passed hmore ih =>
      obtain ⟨front, more, hrest, hpassed, hend⟩ := ih hcursor.advance
      rw [hcursor.advance_eq] at hrest
      cases hcursorRest : cursor.rest with
      | nil =>
          rw [hcursorRest, List.tail_nil, eq_comm, List.append_eq_nil_iff] at hrest
          refine ⟨[], cursor.peek.value :: passed, hrest.2.symm, rfl, fun _ => hrest.2⟩
      | cons token rest =>
          rw [hcursorRest, List.tail_cons] at hrest
          refine ⟨token :: front, more, congrArg (token :: ·) hrest, ?_, hend⟩
          rw [hpassed, peek, hcursorRest]
          rfl

end Walks

end Cursor

/-! ## Readers that walk -/

/-- An outcome of walking from a cursor, with what is open there: the tokens passed lead to what is
to be open behind them, or to a failure. That one stands at the token ahead unless it is about an
assignment, and so many declarations have recovered from it as are open, apart from those around
the reader. -/
inductive Outcome.Turned {α : Type} (outer : Nat) (cursor : Cursor) (before after : Opened)
    (good : List Token → Prop) : Outcome α → Prop
  | done {value : α} {passed : List Token} {reached : Cursor} (hwalks : cursor.Walks passed reached)
      (hopened : before.passAll passed = after) (hgood : good passed) :
      Turned outer cursor before after good (.done value reached)
  | failed {error : Located SyntaxError} {passed : List Token} {stop : Cursor} {times : Nat}
      (hwalks : cursor.Walks passed stop)
      (htimes : times + outer = (before.passAll passed).blocks + 1)
      (hplace : error.value = .invalidAssignmentTarget ∨ error.span = stop.peek.span) :
      Turned outer cursor before after good (.failed error (stop.recover times))

namespace Reader

variable {α β : Type}

/-- In a truncated stream, the reader walks on to a value or a failure. -/
def Turns (read : Reader α) (outer : Nat) (cursor : Cursor) (before after : Opened)
    (good : List Token → Prop) : Prop :=
  cursor.Truncated → (read cursor).Turned outer cursor before after good

variable {outer : Nat} {cursor : Cursor} {before middle after : Opened}
variable {good result : List Token → Prop}

theorem turns_of_truncated {read : Reader α}
    (h : cursor.Truncated → read.Turns outer cursor before after good) :
    read.Turns outer cursor before after good :=
  fun hcursor => h hcursor hcursor

theorem turns_pure {value : α} (h : good []) :
    (pure value : Reader α).Turns outer cursor before before good :=
  fun _ => .done (.nil cursor) rfl h

theorem turns_fail (error : SyntaxError) :
    (fail error : Reader α).Turns (before.blocks + 1) cursor before after good :=
  fun _ => .failed (.nil cursor) (Nat.zero_add _) (.inr rfl)

/-- Where else an error may be is left open for assignments. -/
theorem turns_failAt (span : Span) :
    (failAt .invalidAssignmentTarget span : Reader α).Turns (before.blocks + 1) cursor before after
      good :=
  fun _ => .failed (.nil cursor) (Nat.zero_add _) (.inl rfl)

theorem Turns.bind {first : Reader α} {next : α → Reader β}
    (h : first.Turns outer cursor before middle good)
    (hnext : ∀ value front reached, first cursor = .done value reached →
      cursor.Walks front reached → good front →
      (next value).Turns outer reached middle after fun back => result (front ++ back)) :
    (first >>= next).Turns outer cursor before after result := by
  intro hcursor
  have hfirst := h hcursor
  rw [bind_apply]
  cases hdone : first cursor with
  | done value reached =>
      rw [hdone] at hfirst
      cases hfirst with
      | @done _ front _ hwalks hopened hgood =>
          have houtcome := hnext value front reached hdone hwalks hgood (hwalks.truncated hcursor)
          dsimp only
          generalize next value reached = outcome at houtcome
          cases houtcome with
          | done hmore hafter hresult =>
              apply Outcome.Turned.done (hwalks.append hmore) _ hresult
              rw [Opened.passAll_append, hopened, hafter]
          | failed hmore htimes hplace =>
              apply Outcome.Turned.failed (hwalks.append hmore) _ hplace
              rw [Opened.passAll_append, hopened, htimes]
  | failed error recovery =>
      rw [hdone] at hfirst
      cases hfirst with
      | failed hwalks htimes hplace => exact .failed hwalks htimes hplace
  | unfinished =>
      rw [hdone] at hfirst
      cases hfirst

theorem Turns.imp {read : Reader α} (h : read.Turns outer cursor before after good)
    (himp : ∀ passed, good passed → result passed) :
    read.Turns outer cursor before after result := by
  intro hcursor
  have houtcome := h hcursor
  generalize read cursor = outcome at houtcome ⊢
  cases houtcome with
  | done hwalks hopened hgood => exact .done hwalks hopened (himp _ hgood)
  | failed hwalks htimes hplace => exact .failed hwalks htimes hplace

theorem Turns.map {read : Reader α} {f : α → β} (h : read.Turns outer cursor before after good) :
    (f <$> read).Turns outer cursor before after good := by
  apply Turns.bind h
  intro value front reached _ _ hgood
  apply turns_pure
  rwa [List.append_nil]

/-! ### Single tokens -/

theorem turns_advance {read : Reader β}
    (h : read.Turns outer cursor.advance (before.pass cursor.peek.value) after
      fun back => result (cursor.peek.value :: back)) :
    Turns (fun cursor => read cursor.advance) outer cursor before after result := by
  intro hcursor
  have houtcome := h hcursor.advance
  dsimp only
  generalize read cursor.advance = outcome at houtcome ⊢
  cases houtcome with
  | done hwalks hopened hresult => exact .done (.cons hwalks) hopened hresult
  | failed hwalks htimes hplace => exact .failed (.cons hwalks) htimes hplace

theorem turns_peek {next : Token → Reader β}
    (h : (next cursor.peek.value).Turns outer cursor before after result) :
    (peek >>= next).Turns outer cursor before after result :=
  h

theorem turns_previousSpan {next : Span → Reader β}
    (h : (next cursor.previous.span).Turns outer cursor before after result) :
    (previousSpan >>= next).Turns outer cursor before after result :=
  h

theorem turns_next {next : Located Token → Reader β}
    (h : (next cursor.peek).Turns outer cursor.advance (before.pass cursor.peek.value) after
      fun back => result (cursor.peek.value :: back)) :
    (Reader.next >>= next).Turns outer cursor before after result :=
  turns_advance h

theorem turns_isAhead {token : Token} {next : Bool → Reader β}
    (h : ∀ found, (next found).Turns outer cursor before after result) :
    (isAhead token >>= next).Turns outer cursor before after result :=
  h _

theorem turns_eat {token : Token} {next : Bool → Reader β}
    (htrue : cursor.peek.value = token → (next true).Turns outer cursor.advance (before.pass token)
      after fun back => result (token :: back))
    (hfalse : (next false).Turns outer cursor before after result) :
    (eat token >>= next).Turns outer cursor before after result := by
  by_cases hpeek : cursor.peek.value = token
  · intro hcursor
    rw [bind_of_done (eat_of_eq hpeek)]
    subst hpeek
    exact turns_advance (htrue rfl) hcursor
  · intro hcursor
    rw [bind_of_done (eat_of_ne hpeek)]
    exact hfalse hcursor

theorem turns_symbolAhead {symbol : Symbol} {expected : String} {next : Located Token → Reader β}
    (hpeek : cursor.peek.value = .symbol symbol)
    (h : (next cursor.peek).Turns outer cursor.advance (before.pass (.symbol symbol)) after
      fun back => result (.symbol symbol :: back)) :
    (expectSymbol symbol expected >>= next).Turns outer cursor before after result := by
  intro hcursor
  rw [← hpeek] at h
  rw [bind_apply, expectSymbol, expect, if_pos hpeek]
  exact turns_advance h hcursor

theorem turns_expectSymbol {symbol : Symbol} {expected : String} {next : Located Token → Reader β}
    (h : cursor.peek.value = .symbol symbol → (next cursor.peek).Turns (before.blocks + 1)
      cursor.advance (before.pass (.symbol symbol)) after
        fun back => result (.symbol symbol :: back)) :
    (expectSymbol symbol expected >>= next).Turns (before.blocks + 1) cursor before after
      result := by
  by_cases hpeek : cursor.peek.value = .symbol symbol
  · exact turns_symbolAhead hpeek (h hpeek)
  · intro hcursor
    rw [bind_apply, expectSymbol, expect, if_neg hpeek]
    exact turns_fail (.unexpectedToken expected cursor.peek.value) hcursor

theorem turns_expectName {expected : String} :
    (expectName expected).Turns (before.blocks + 1) cursor before before
      fun passed => ∃ text, passed = [.name text] := by
  intro hcursor
  rw [expectName]
  split
  next text hpeek =>
    apply Outcome.Turned.done (.cons (.nil cursor.advance))
    · rw [hpeek]
      rfl
    · exact ⟨text, congrArg (fun token => [token]) hpeek⟩
  next => exact turns_fail (.unexpectedToken expected cursor.peek.value) hcursor

/-! ### Nesting and recovery -/

theorem turns_nested {read : Nat → Reader α} {room : Nat}
    (h : ∀ inner, room = inner + 1 →
      (read inner).Turns (before.blocks + 1) cursor before after good) :
    (nested read room).Turns (before.blocks + 1) cursor before after good := by
  cases room with
  | zero => exact turns_fail .tooDeep
  | succ inner => exact h inner rfl

/-- The reader is a declaration more to recover. -/
theorem turns_recovering {read : Reader α}
    (h : read.Turns (outer + 1) cursor before after good) :
    (recovering read).Turns outer cursor before after good := by
  intro hcursor
  have houtcome := h hcursor
  rw [recovering]
  generalize read cursor = outcome at houtcome ⊢
  cases houtcome with
  | done hwalks hopened hgood => exact .done hwalks hopened hgood
  | @failed _ _ stop times hwalks htimes hplace =>
      dsimp only
      rw [Cursor.recover_bind_synchronize]
      exact .failed hwalks (by omega) hplace

/-! ### Lists -/

/-- Collecting ends where it is to stop. -/
theorem stop_of_collect {stop : Cursor → Bool} {item : Reader α} {fuel : Nat} {read values : List α}
    {reached : Cursor} (h : collect stop item fuel read cursor = .done values reached) :
    stop reached = true := by
  induction fuel generalizing cursor read with
  | zero => cases h
  | succ fuel ih =>
      by_cases hstop : stop cursor = true
      · rw [collect_of_stop item fuel read hstop] at h
        cases h
        exact hstop
      · rw [collect_of_not_stop item fuel read hstop, bind_apply] at h
        split at h
        · exact ih h
        · cases h
        · cases h

/-- Each item that is collected leaves fewer tokens ahead. -/
theorem turns_collect {stop : Cursor → Bool} {item : Reader α} {bound fuel : Nat} {read : List α}
    (hitem : ∀ cursor : Cursor, cursor.rest.length ≤ bound →
      item.Turns outer cursor before before Varied)
    (hbound : cursor.rest.length ≤ bound) (hfuel : cursor.rest.length < fuel) :
    (collect stop item fuel read).Turns outer cursor before before fun _ => True := by
  induction fuel generalizing cursor read with
  | zero => cases hfuel
  | succ fuel ih =>
      intro hcursor
      by_cases hstop : stop cursor = true
      · rw [collect_of_stop item fuel read hstop]
        exact turns_pure trivial hcursor
      · rw [collect_of_not_stop item fuel read hstop]
        apply (hitem cursor hbound).bind _ hcursor
        intro value front reached _ hwalks hvaried
        have hlength := hwalks.length_lt hcursor hvaried
        exact ih (by omega) (by omega)

/-- An item and the comma behind it leave fewer tokens ahead. -/
theorem turns_separated {listing : Listing} {item : Reader α} {bound fuel : Nat} {read : List α}
    (hitem : ∀ cursor : Cursor, cursor.rest.length ≤ bound →
      item.Turns (before.blocks + 1) cursor before before
        fun passed => ∃ token ∈ passed, token ≠ .symbol .comma)
    (hbound : cursor.rest.length ≤ bound) (hfuel : cursor.rest.length < fuel) :
    (separated listing item fuel read).Turns (before.blocks + 1) cursor before before
      fun _ => True := by
  induction fuel generalizing cursor read with
  | zero => cases hfuel
  | succ fuel ih =>
      rw [separated]
      split
      next => exact turns_fail (.tooMany listing)
      next =>
        apply turns_of_truncated
        intro hcursor
        apply (hitem cursor hbound).bind
        rintro value front reached - hwalks ⟨token, htoken, hne⟩
        apply turns_eat
        · intro hpeek
          -- An item has a token other than a comma, so with the comma the tokens differ.
          have hcomma : reached.Walks [.symbol .comma] reached.advance :=
            .cons_of_eq hpeek (.nil reached.advance)
          have hvaried : Varied (front ++ [.symbol .comma]) :=
            ⟨token, List.mem_append_left _ htoken, _,
              List.mem_append_right _ List.mem_cons_self, hne⟩
          have hlength := (hwalks.append hcomma).length_lt hcursor hvaried
          exact ih (by omega) (by omega)
        · exact turns_pure trivial

end Reader

end Stacklet
