import Stacklet.Proofs.Tree.Outcomes

/-! # What readers pass

A reader that is to read given tokens comes to its end behind them, if what is ahead then does not
continue them. Such facts are put together along the reader, with the tokens still to be passed
written out in front of the cursor.
-/

namespace Stacklet

/-- The token ahead of a cursor before the given tokens. -/
def ahead (rest : List (Located Token)) (last : Located Token) : Token :=
  (rest.headD last).value

namespace Reader

variable {α β : Type}

/-- The reader gives a value at a cursor and has then only the given tokens ahead. -/
def Passes (read : Reader α) (cursor : Cursor) (value : α) (rest : List (Located Token)) : Prop :=
  ∃ previous, read cursor = .done value { cursor with rest, previous }

variable {cursor : Cursor} {last previous : Located Token}
variable {rest tokens : List (Located Token)} {value : α} {result : β}

theorem passes_pure (value : α) : (pure value : Reader α).Passes cursor value cursor.rest :=
  ⟨cursor.previous, rfl⟩

theorem Passes.bind {first : Reader α} {next : α → Reader β} (h : first.Passes cursor value tokens)
    (hnext : ∀ previous, (next value).Passes { cursor with rest := tokens, previous } result rest) :
    (first >>= next).Passes cursor result rest := by
  obtain ⟨middle, hfirst⟩ := h
  obtain ⟨previous, hdone⟩ := hnext middle
  refine ⟨previous, ?_⟩
  rw [bind_apply, hfirst]
  exact hdone

theorem Passes.map {read : Reader α} (f : α → β) (h : read.Passes cursor value rest) :
    (f <$> read).Passes cursor (f value) rest :=
  h.bind fun _ => passes_pure (f value)

/-! ## Single tokens -/

theorem advance_cons {token : Located Token} (h : token.value ≠ .endOfInput) :
    Cursor.advance ⟨token :: rest, last, previous⟩ = ⟨rest, last, token⟩ := by
  have hend : Cursor.atEnd ⟨token :: rest, last, previous⟩ = false := decide_eq_false h
  rw [Cursor.advance, hend]
  rfl

theorem passes_peek {next : Token → Reader β}
    (h : (next cursor.peek.value).Passes cursor result rest) :
    (peek >>= next).Passes cursor result rest :=
  h

theorem passes_previousSpan {next : Span → Reader β}
    (h : (next cursor.previous.span).Passes cursor result rest) :
    (previousSpan >>= next).Passes cursor result rest :=
  h

theorem passes_next {next : Located Token → Reader β} {token : Located Token}
    (hne : token.value ≠ .endOfInput)
    (h : (next token).Passes ⟨tokens, last, token⟩ result rest) :
    (Reader.next >>= next).Passes ⟨token :: tokens, last, previous⟩ result rest := by
  obtain ⟨after, hdone⟩ := h
  refine ⟨after, ?_⟩
  rw [bind_apply, Reader.next, advance_cons hne]
  exact hdone

theorem passes_isAhead {token : Token} {next : Bool → Reader β}
    (h : (next (decide (cursor.peek.value = token))).Passes cursor result rest) :
    (isAhead token >>= next).Passes cursor result rest :=
  h

theorem passes_eat {next : Bool → Reader β} {token : Token} {eaten : Located Token}
    (heaten : eaten.value = token) (hne : token ≠ .endOfInput)
    (h : (next true).Passes ⟨tokens, last, eaten⟩ result rest) :
    (eat token >>= next).Passes ⟨eaten :: tokens, last, previous⟩ result rest := by
  obtain ⟨after, hdone⟩ := h
  refine ⟨after, ?_⟩
  have hpeek : (Cursor.peek ⟨eaten :: tokens, last, previous⟩).value = token := heaten
  rw [bind_apply, eat, if_pos hpeek, advance_cons (heaten ▸ hne)]
  exact hdone

theorem passes_eat_of_ne {next : Bool → Reader β} {token : Token}
    (hne : cursor.peek.value ≠ token) (h : (next false).Passes cursor result rest) :
    (eat token >>= next).Passes cursor result rest := by
  obtain ⟨after, hdone⟩ := h
  refine ⟨after, ?_⟩
  rw [bind_apply, eat, if_neg hne]
  exact hdone

theorem passes_expectSymbol {symbol : Symbol} {expected : String} {next : Located Token → Reader β}
    {token : Located Token} (htoken : token.value = .symbol symbol)
    (h : (next token).Passes ⟨tokens, last, token⟩ result rest) :
    (expectSymbol symbol expected >>= next).Passes ⟨token :: tokens, last, previous⟩ result
      rest := by
  obtain ⟨after, hdone⟩ := h
  refine ⟨after, ?_⟩
  have hpeek : (Cursor.peek ⟨token :: tokens, last, previous⟩).value = .symbol symbol := htoken
  have hne : token.value ≠ .endOfInput := by simp [htoken]
  rw [bind_apply, expectSymbol, expect, if_pos hpeek, Reader.next, advance_cons hne]
  exact hdone

theorem passes_expectName {expected : String} {name : Located String}
    (h : Written [.name name] tokens) :
    (expectName expected).Passes ⟨tokens ++ rest, last, previous⟩ name rest := by
  obtain ⟨token, _, rfl, hname, hnil⟩ := written_cons.mp h
  obtain rfl := written_nil.mp hnil
  obtain rfl := Mark.matches_name.mp hname
  refine ⟨⟨.name name.value, name.span⟩, ?_⟩
  exact congrArg (Outcome.done name) (advance_cons (by simp))

theorem passes_nested {read : Nat → Reader α} {room : Nat}
    (h : (read room).Passes cursor value rest) :
    (nested read (room + 1)).Passes cursor value rest :=
  h

theorem passes_recovering {read : Reader α} (h : read.Passes cursor value rest) :
    (recovering read).Passes cursor value rest := by
  obtain ⟨after, hdone⟩ := h
  refine ⟨after, ?_⟩
  rw [recovering, hdone]

/-! ## Lists -/

variable {piece : α → List (Located Token) → Prop} {values : List α}

/-- Items are collected one after the other, each before a token that lets it end. -/
theorem passes_collect {stop : Cursor → Bool} {item : Reader α} (lets : Token → Prop)
    (hitem : ∀ {value tokens rest previous}, piece value tokens → lets (ahead rest last) →
      item.Passes ⟨tokens ++ rest, last, previous⟩ value rest)
    (hlets : ∀ {value tokens rest}, piece value tokens → lets (ahead (tokens ++ rest) last))
    (hgo : ∀ {value tokens rest previous}, piece value tokens →
      ¬ stop ⟨tokens ++ rest, last, previous⟩ = true)
    (hstop : ∀ previous, stop ⟨rest, last, previous⟩ = true) (hend : lets (ahead rest last))
    (h : Sequence piece values tokens) {fuel : Nat} (hfuel : values.length < fuel)
    (read : List α) :
    (collect stop item fuel read).Passes ⟨tokens ++ rest, last, previous⟩ (read.reverse ++ values)
      rest := by
  induction h generalizing fuel read previous with
  | nil =>
      obtain ⟨fuel, rfl⟩ := Nat.exists_eq_succ_of_ne_zero (Nat.ne_zero_of_lt hfuel)
      refine ⟨previous, ?_⟩
      rw [List.append_nil]
      exact collect_of_stop item fuel read (hstop previous)
  | @cons value values piece tokens hvalue hrest ih =>
      obtain ⟨fuel, rfl⟩ := Nat.exists_eq_succ_of_ne_zero (Nat.ne_zero_of_lt hfuel)
      -- Behind an item stands the next one, or what ends the list.
      have hahead : lets (ahead (tokens ++ rest) last) := by
        cases hrest with
        | nil => exact hend
        | cons hnext _ =>
            rw [List.append_assoc]
            exact hlets hnext
      have hmore : (item >>= fun value => collect stop item fuel (value :: read)).Passes
          ⟨piece ++ (tokens ++ rest), last, previous⟩ ((value :: read).reverse ++ values) rest :=
        (hitem hvalue hahead).bind fun _ => ih (Nat.lt_of_succ_lt_succ hfuel) (value :: read)
      obtain ⟨after, hdone⟩ := hmore
      refine ⟨after, ?_⟩
      rw [List.append_assoc]
      rw [List.reverse_cons, List.append_assoc, List.singleton_append] at hdone
      exact (collect_of_not_stop item fuel read (hgo hvalue)).trans hdone

/-- Items of a listing are read with the commas between them. -/
theorem passes_separated {listing : Listing} {item : Reader α}
    (hitem : ∀ {value tokens rest previous}, piece value tokens →
      ahead rest last = .symbol .comma ∨ ahead rest last = .symbol .closeParen →
      item.Passes ⟨tokens ++ rest, last, previous⟩ value rest)
    (hend : ahead rest last = .symbol .closeParen) (h : Separated piece values tokens) {fuel : Nat}
    (hfuel : values.length ≤ fuel) {read : List α}
    (hlength : read.length + values.length ≤ maxListed) :
    (separated listing item fuel read).Passes ⟨tokens ++ rest, last, previous⟩
      (read.reverse ++ values) rest := by
  induction h generalizing fuel read previous with
  | @last value piece hvalue =>
      obtain ⟨fuel, rfl⟩ := Nat.exists_eq_succ_of_ne_zero (Nat.ne_zero_of_lt hfuel)
      have hroom : ¬ maxListed ≤ read.length := by
        simp only [List.length_cons, List.length_nil] at hlength
        omega
      rw [separated, if_neg hroom]
      refine (hitem hvalue (.inr hend)).bind fun _ => ?_
      refine passes_eat_of_ne (fun hcomma => ?_) ?_
      · cases hend.symm.trans hcomma
      · rw [← List.reverse_cons]
        exact passes_pure _
  | @cons value values piece tokens comma hvalue hcomma hrest ih =>
      obtain ⟨fuel, rfl⟩ := Nat.exists_eq_succ_of_ne_zero (Nat.ne_zero_of_lt hfuel)
      simp only [List.length_cons] at hlength hfuel
      have hroom : ¬ maxListed ≤ read.length := by omega
      have hahead : ahead (comma :: (tokens ++ rest)) last = .symbol .comma := hcomma
      have hread : (value :: read).length + values.length ≤ maxListed := by
        rw [List.length_cons]
        omega
      have hvalues : read.reverse ++ value :: values = (value :: read).reverse ++ values := by
        rw [List.reverse_cons, List.append_assoc, List.singleton_append]
      rw [separated, if_neg hroom, List.append_assoc, hvalues]
      refine (hitem hvalue (.inl hahead)).bind fun _ => ?_
      exact passes_eat hcomma (by decide) (ih (Nat.le_of_succ_le_succ hfuel) hread)

/-- A listing in parentheses may be empty. -/
theorem passes_listing {listing : Listing} {item : Reader α} {fuel : Nat}
    {next : List α → Reader β}
    (hitem : ∀ {value tokens rest previous}, piece value tokens →
      ahead rest last = .symbol .comma ∨ ahead rest last = .symbol .closeParen →
      item.Passes ⟨tokens ++ rest, last, previous⟩ value rest)
    (hopen : ∀ {value tokens rest}, piece value tokens →
      ahead (tokens ++ rest) last ≠ .symbol .closeParen)
    {middle : List (Located Token)} (hend : ahead middle last = .symbol .closeParen)
    (h : values = [] ∧ tokens = [] ∨ Separated piece values tokens)
    (hfuel : values.length ≤ fuel) (hlength : values.length ≤ maxListed)
    (hnext : ∀ previous, (next values).Passes ⟨middle, last, previous⟩ result rest) :
    (isAhead (.symbol .closeParen) >>= fun empty =>
      if empty then pure [] >>= next
      else separated listing item fuel [] >>= next).Passes ⟨tokens ++ middle, last, previous⟩ result
        rest := by
  refine passes_isAhead ?_
  rcases h with ⟨rfl, rfl⟩ | h
  · have hpeek : (Cursor.peek ⟨middle, last, previous⟩).value = .symbol .closeParen := hend
    rw [List.nil_append, decide_eq_true hpeek]
    exact hnext previous
  · have hpeek : (Cursor.peek ⟨tokens ++ middle, last, previous⟩).value ≠ .symbol .closeParen := by
      cases h with
      | last hvalue => exact hopen hvalue
      | cons hvalue _ _ =>
          rw [List.append_assoc]
          exact hopen hvalue
    rw [decide_eq_false hpeek]
    refine (passes_separated hitem hend h hfuel ?_).bind hnext
    rwa [List.length_nil, Nat.zero_add]

end Reader

end Stacklet
