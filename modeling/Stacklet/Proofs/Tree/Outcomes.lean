import Stacklet.Proofs.Tree.Writing

/-! # What readers give

A reader that comes to an end has passed some tokens and gives a value. What is known of the value,
the tokens passed and the cursor then is put together along the reader: a property of a bind is one
of its second part, with the tokens that the first part has passed in front.
-/

namespace Stacklet

/-- A cursor in a stream that ends with the end of input and has no `for` ahead. -/
structure Cursor.Plain (cursor : Cursor) : Prop where
  last_eq : cursor.last.value = .endOfInput
  no_for : ∀ token ∈ cursor.rest, token.value ≠ .keyword .kwFor

/-- A cursor behind some tokens, none of which is the end of input. -/
structure Cursor.Passed (cursor after : Cursor) (passed : List (Located Token)) : Prop where
  rest_eq : cursor.rest = passed ++ after.rest
  last_eq : after.last = cursor.last
  no_end : ∀ token ∈ passed, token.value ≠ .endOfInput

theorem Cursor.passed_nil (cursor : Cursor) : cursor.Passed cursor [] :=
  ⟨rfl, rfl, List.forall_mem_nil _⟩

theorem Cursor.Passed.append {cursor middle after : Cursor} {front back : List (Located Token)}
    (hfront : cursor.Passed middle front) (hback : middle.Passed after back) :
    cursor.Passed after (front ++ back) where
  rest_eq := by rw [hfront.rest_eq, hback.rest_eq, List.append_assoc]
  last_eq := hback.last_eq.trans hfront.last_eq
  no_end := List.forall_mem_append.mpr ⟨hfront.no_end, hback.no_end⟩

theorem Cursor.Plain.of_passed {cursor after : Cursor} {passed : List (Located Token)}
    (h : cursor.Plain) (hpassed : cursor.Passed after passed) : after.Plain where
  last_eq := hpassed.last_eq ▸ h.last_eq
  no_for token htoken := by
    apply h.no_for token
    rw [hpassed.rest_eq]
    exact List.mem_append_right passed htoken

/-- A token other than the end of input is passed by advancing. -/
theorem Cursor.passed_advance {cursor : Cursor} (hlast : cursor.last.value = .endOfInput)
    (hpeek : cursor.peek.value ≠ .endOfInput) :
    cursor.Passed cursor.advance [cursor.peek] ∧ cursor.advance.previous = cursor.peek := by
  obtain ⟨_ | ⟨token, rest⟩, last, previous⟩ := cursor
  · exact absurd hlast hpeek
  · have hend : Cursor.atEnd ⟨token :: rest, last, previous⟩ = false := by
      simpa [Cursor.atEnd] using hpeek
    rw [Cursor.advance, hend]
    exact ⟨⟨rfl, rfl, List.forall_mem_singleton.mpr hpeek⟩, rfl⟩

theorem Cursor.Plain.passed_advance {cursor : Cursor} (h : cursor.Plain)
    (hpeek : cursor.peek.value ≠ .endOfInput) :
    cursor.Passed cursor.advance [cursor.peek] ∧ cursor.advance.previous = cursor.peek :=
  Cursor.passed_advance h.last_eq hpeek

theorem Cursor.Plain.peek_ne_for {cursor : Cursor} (h : cursor.Plain) :
    cursor.peek.value ≠ .keyword .kwFor := by
  intro hpeek
  obtain ⟨hpassed, -⟩ := h.passed_advance (hpeek ▸ nofun)
  exact h.no_for cursor.peek (hpassed.rest_eq ▸ List.mem_cons_self) hpeek

namespace Reader

variable {α β : Type}

/-- Whatever the reader gives at a plain cursor has the property, which is about the value, the
tokens passed and the cursor behind them. -/
def Gives (read : Reader α) (cursor : Cursor)
    (good : α → List (Located Token) → Cursor → Prop) : Prop :=
  cursor.Plain → ∀ value after, read cursor = .done value after →
    ∃ passed, cursor.Passed after passed ∧ good value passed after

variable {cursor : Cursor} {good : α → List (Located Token) → Cursor → Prop}
variable {result : β → List (Located Token) → Cursor → Prop}

theorem Gives.imp {read : Reader α} {better : α → List (Located Token) → Cursor → Prop}
    (h : read.Gives cursor good)
    (himp : ∀ value passed after, cursor.rest = passed ++ after.rest → good value passed after →
      better value passed after) :
    read.Gives cursor better := by
  intro hplain value after hdone
  obtain ⟨passed, hpassed, hgood⟩ := h hplain value after hdone
  exact ⟨passed, hpassed, himp value passed after hpassed.rest_eq hgood⟩

theorem gives_of_plain {read : Reader α} (h : cursor.Plain → read.Gives cursor good) :
    read.Gives cursor good :=
  fun hplain => h hplain hplain

theorem gives_pure {value : α} (h : good value [] cursor) :
    (pure value : Reader α).Gives cursor good := by
  rintro - _ _ ⟨⟩
  exact ⟨[], cursor.passed_nil, h⟩

theorem gives_fail (error : SyntaxError) : (fail error : Reader α).Gives cursor good :=
  fun _ _ _ => nofun

theorem gives_failAt (error : SyntaxError) (span : Span) :
    (failAt error span : Reader α).Gives cursor good :=
  fun _ _ _ => nofun

theorem gives_unfinished : (unfinished : Reader α).Gives cursor good :=
  fun _ _ _ => nofun

theorem Gives.bind {first : Reader α} {next : α → Reader β} (h : first.Gives cursor good)
    (hnext : ∀ value front middle, good value front middle →
      (next value).Gives middle fun value back after => result value (front ++ back) after) :
    (first >>= next).Gives cursor result := by
  intro hplain value after hdone
  rw [bind_apply] at hdone
  split at hdone
  next first middle hfirst =>
    obtain ⟨front, hfront, hgood⟩ := h hplain _ _ hfirst
    obtain ⟨back, hback, hresult⟩ :=
      hnext first front middle hgood (hplain.of_passed hfront) value after hdone
    exact ⟨front ++ back, hfront.append hback, hresult⟩
  next => exact nomatch hdone
  next => exact nomatch hdone

theorem Gives.map {read : Reader α} {f : α → β}
    (h : read.Gives cursor fun value passed after => result (f value) passed after) :
    (f <$> read).Gives cursor result := by
  refine Gives.bind h ?_
  intro value front middle hgood
  refine gives_pure ?_
  rwa [List.append_nil]

/-! ## Single tokens -/

theorem gives_advance {read : Reader β} (hne : cursor.peek.value ≠ .endOfInput)
    (h : cursor.advance.previous = cursor.peek →
      read.Gives cursor.advance fun value back => result value (cursor.peek :: back)) :
    Gives (fun cursor => read cursor.advance) cursor result := by
  intro hplain value after hdone
  obtain ⟨hpassed, hprevious⟩ := hplain.passed_advance hne
  obtain ⟨back, hback, hresult⟩ := h hprevious (hplain.of_passed hpassed) value after hdone
  exact ⟨cursor.peek :: back, hpassed.append hback, hresult⟩

theorem gives_peek {next : Token → Reader β} (h : (next cursor.peek.value).Gives cursor result) :
    (peek >>= next).Gives cursor result :=
  h

theorem gives_previousSpan {next : Span → Reader β}
    (h : (next cursor.previous.span).Gives cursor result) :
    (previousSpan >>= next).Gives cursor result :=
  h

theorem gives_next {next : Located Token → Reader β} (hne : cursor.peek.value ≠ .endOfInput)
    (h : ∀ token after, token.value = cursor.peek.value →
      (next token).Gives after fun value back => result value (token :: back)) :
    (Reader.next >>= next).Gives cursor result :=
  gives_advance hne fun _ => h cursor.peek cursor.advance rfl

theorem gives_isAhead {token : Token} {next : Bool → Reader β}
    (htrue : cursor.peek.value = token → (next true).Gives cursor result)
    (hfalse : cursor.peek.value ≠ token → (next false).Gives cursor result) :
    (isAhead token >>= next).Gives cursor result := by
  by_cases hpeek : cursor.peek.value = token
  · intro hplain value after hdone
    rw [bind_apply, isAhead, decide_eq_true hpeek] at hdone
    exact htrue hpeek hplain value after hdone
  · intro hplain value after hdone
    rw [bind_apply, isAhead, decide_eq_false hpeek] at hdone
    exact hfalse hpeek hplain value after hdone

theorem gives_eat {token : Token} {next : Bool → Reader β} (hne : token ≠ .endOfInput)
    (htrue : cursor.peek.value = token → ∀ eaten after, eaten.value = token →
      after.previous = eaten →
      (next true).Gives after fun value back => result value (eaten :: back))
    (hfalse : cursor.peek.value ≠ token → (next false).Gives cursor result) :
    (eat token >>= next).Gives cursor result := by
  by_cases hpeek : cursor.peek.value = token
  · have hadvance := gives_advance (hpeek ▸ hne) (htrue hpeek cursor.peek cursor.advance hpeek)
    intro hplain value after hdone
    rw [bind_apply, eat, if_pos hpeek] at hdone
    exact hadvance hplain value after hdone
  · intro hplain value after hdone
    rw [bind_apply, eat, if_neg hpeek] at hdone
    exact hfalse hpeek hplain value after hdone

theorem gives_expectSymbol {symbol : Symbol} {expected : String} {next : Located Token → Reader β}
    (h : ∀ token after, token.value = .symbol symbol →
      (next token).Gives after fun value back => result value (token :: back)) :
    (expectSymbol symbol expected >>= next).Gives cursor result := by
  by_cases hpeek : cursor.peek.value = .symbol symbol
  · have hadvance := gives_advance (hpeek ▸ nofun) fun _ => h cursor.peek cursor.advance hpeek
    intro hplain value after hdone
    rw [bind_apply, expectSymbol, expect, if_pos hpeek] at hdone
    exact hadvance hplain value after hdone
  · intro hplain value after hdone
    rw [bind_apply, expectSymbol, expect, if_neg hpeek] at hdone
    exact nomatch hdone

theorem gives_expectName {expected : String} :
    (expectName expected).Gives cursor fun name passed _ => Written [.name name] passed := by
  intro hplain name after hdone
  rw [expectName] at hdone
  split at hdone
  next text hpeek =>
    cases hdone
    obtain ⟨hpassed, -⟩ := hplain.passed_advance (hpeek ▸ nofun)
    exact ⟨[cursor.peek], hpassed, .cons (Mark.matches_name.mpr (by rw [← hpeek])) .nil⟩
  next => exact nomatch hdone

/-! ## Nesting, recovery and lists -/

theorem gives_nested {read : Nat → Reader α} {room : Nat}
    (h : ∀ inner, room = inner + 1 → (read inner).Gives cursor good) :
    (nested read room).Gives cursor good := by
  cases room with
  | zero => exact gives_fail .tooDeep
  | succ inner => exact h inner rfl

theorem gives_recovering {read : Reader α} (h : read.Gives cursor good) :
    (recovering read).Gives cursor good := by
  intro hplain value after hdone
  rw [recovering] at hdone
  split at hdone
  next => exact nomatch hdone
  next => exact h hplain value after hdone

variable {piece : α → List (Located Token) → Prop}

theorem collect_of_stop {stop : Cursor → Bool} (item : Reader α) (fuel : Nat) (read : List α)
    (h : stop cursor = true) :
    collect stop item (fuel + 1) read cursor = .done read.reverse cursor :=
  if_pos h

theorem collect_of_not_stop {stop : Cursor → Bool} (item : Reader α) (fuel : Nat) (read : List α)
    (h : ¬ stop cursor = true) :
    collect stop item (fuel + 1) read cursor =
      (item >>= fun value => collect stop item fuel (value :: read)) cursor :=
  if_neg h

/-- Items that are collected up to a stop are written one after the other. -/
theorem gives_collect {stop : Cursor → Bool} {item : Reader α}
    (hitem : ∀ cursor, item.Gives cursor fun value passed _ => piece value passed) (fuel : Nat)
    (read : List α) :
    (collect stop item fuel read).Gives cursor fun values passed after =>
      ∃ more, values = read.reverse ++ more ∧ Sequence piece more passed ∧ stop after := by
  induction fuel generalizing read cursor with
  | zero => exact gives_unfinished
  | succ fuel ih =>
      by_cases hstop : stop cursor
      · intro hplain value after hdone
        rw [collect_of_stop item fuel read hstop] at hdone
        cases hdone
        exact ⟨[], cursor.passed_nil, [], (List.append_nil _).symm, .nil, hstop⟩
      · have hmore : (item >>= fun value => collect stop item fuel (value :: read)).Gives cursor
            fun values passed after =>
              ∃ more, values = read.reverse ++ more ∧ Sequence piece more passed ∧ stop after := by
          refine (hitem cursor).bind fun value front middle hvalue => ?_
          refine (ih (value :: read)).imp ?_
          rintro _ passed after - ⟨more, rfl, hsequence, hend⟩
          refine ⟨value :: more, ?_, .cons hvalue hsequence, hend⟩
          rw [List.reverse_cons, List.append_assoc, List.singleton_append]
        intro hplain value after hdone
        rw [collect_of_not_stop item fuel read hstop] at hdone
        exact hmore hplain value after hdone

/-- Items of a listing are written with commas between them, and there are not too many. -/
theorem gives_separated {listing : Listing} {item : Reader α}
    (hitem : ∀ cursor, item.Gives cursor fun value passed _ => piece value passed) (fuel : Nat)
    (read : List α) :
    (separated listing item fuel read).Gives cursor fun values passed _ =>
      ∃ more, values = read.reverse ++ more ∧ Separated piece more passed ∧
        values.length ≤ maxListed := by
  induction fuel generalizing read cursor with
  | zero => exact gives_unfinished
  | succ fuel ih =>
      rw [separated]
      split
      next => exact gives_fail (.tooMany listing)
      next hroom =>
        refine (hitem cursor).bind fun value front middle hvalue => ?_
        refine gives_eat nofun ?_ ?_
        · rintro - comma after hcomma -
          refine (ih (value :: read)).imp ?_
          rintro _ passed last - ⟨more, rfl, hseparated, hlength⟩
          refine ⟨value :: more, ?_, .cons hvalue hcomma hseparated, hlength⟩
          rw [List.reverse_cons, List.append_assoc, List.singleton_append]
        · intro _
          refine gives_pure ⟨[value], List.reverse_cons, ?_, ?_⟩
          · rw [List.append_nil]
            exact .last hvalue
          · simp only [List.length_reverse, List.length_cons]
            omega

/-- A listing in parentheses may be empty. -/
theorem gives_listing {listing : Listing} {item : Reader α} {fuel : Nat} {marks : α → List Mark}
    {fits : α → Prop} {next : List α → Reader β}
    (hitem : ∀ cursor, item.Gives cursor fun value passed _ =>
      Written (marks value) passed ∧ fits value)
    (hnext : ∀ values front after, Written (listed (values.map marks)) front →
      values.length ≤ maxListed → (∀ value ∈ values, fits value) →
      (next values).Gives after fun value back => result value (front ++ back)) :
    (isAhead (.symbol .closeParen) >>= fun empty =>
      if empty then pure [] >>= next
      else separated listing item fuel [] >>= next).Gives cursor result := by
  refine gives_isAhead ?_ ?_
  · intro _
    exact hnext [] [] cursor .nil (Nat.zero_le _) (List.forall_mem_nil _)
  · intro _
    refine (gives_separated hitem fuel []).bind ?_
    rintro values front after ⟨_, rfl, hseparated, hlength⟩
    obtain ⟨-, hwritten, hfits⟩ := separated_iff.mp hseparated
    exact hnext values front after hwritten hlength hfits

end Reader

/-! ## Streams -/

section

variable {tokens : List (Located Token)} {last : Located Token} {tree : List Stmt}

theorem parse_of_done {reached : Cursor} (hlast : tokens.getLast? = some last)
    (h : Grammar.program (Grammar.fuelFor tokens.length) ⟨tokens, last, last⟩ =
      .done tree reached) : parse tokens = .ok tree := by
  simp only [parse, hlast, h]

theorem parse_of_failed {error : Located SyntaxError} {recovery : Option Cursor}
    (hlast : tokens.getLast? = some last)
    (h : Grammar.program (Grammar.fuelFor tokens.length) ⟨tokens, last, last⟩ =
      .failed error recovery) : parse tokens = .error ⟨error, recovery.isSome⟩ := by
  simp only [parse, hlast, h]

theorem done_of_parse (hlast : tokens.getLast? = some last) (h : parse tokens = .ok tree) :
    ∃ reached, Grammar.program (Grammar.fuelFor tokens.length) ⟨tokens, last, last⟩ =
      .done tree reached := by
  simp only [parse, hlast] at h
  split at h
  next statements reached hdone =>
    cases h
    exact ⟨reached, hdone⟩
  next => cases h
  next => cases h

/-- A stream is no program for what the reader of programs fails with, if that comes to an end. -/
theorem failed_of_parse {failure : SyntaxFailure} (hlast : tokens.getLast? = some last)
    (hends : Grammar.program (Grammar.fuelFor tokens.length) ⟨tokens, last, last⟩ ≠ .unfinished)
    (h : parse tokens = .error failure) :
    ∃ recovery, Grammar.program (Grammar.fuelFor tokens.length) ⟨tokens, last, last⟩ =
      .failed failure.error recovery ∧ failure.recovers = recovery.isSome := by
  simp only [parse, hlast] at h
  split at h
  next => cases h
  next error recovery hfailed =>
    cases h
    exact ⟨recovery, hfailed, rfl⟩
  next hunfinished => exact absurd hunfinished hends

end

end Stacklet
