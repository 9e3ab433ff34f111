import Stacklet.Proofs.Token.Items
import Stacklet.Proofs.Tree.ErrorPlaces
import Stacklet.Proofs.Tree.Truncation

/-! # Parsing the first tokens of a text

The tokens of a text end with the end of input, and it is nowhere else. The first ones of them spell
no program then, unless there are none; parsing them stops with an error. Whether it returns that
error is up to recovery, which nothing ends where the tokens do.
-/

namespace Stacklet

/-- The end of input is the last token of a text and none of the others. -/
theorem Lexer.exists_append_of_scan {text : List Char} {tokens : List (Located Token)}
    (h : scan text = .ok tokens) :
    ∃ front finish, tokens = front ++ [⟨.endOfInput, finish⟩] ∧
      ∀ token ∈ front, token.value ≠ .endOfInput := by
  unfold scan exhaust at h
  split at h
  next =>
    cases h
    refine ⟨_, _, rfl, fun token htoken hend => ?_⟩
    obtain ⟨⟨piece, span⟩, hpiece, hvalue⟩ := List.mem_filterMap.mp htoken
    have hitem : Item.token token ∈ itemsOf 1 0 (pieces text) := by
      apply List.mem_filterMap.mpr ⟨⟨piece, span⟩, hpiece, _⟩
      cases piece <;> cases hvalue
      rfl
    exact value_ne_endOfInput hitem (congrArg Except.ok hend)
  next => cases h

/-- Parsing a stream that lacks the end of input stops before some of its tokens, with an error: it
stands at the next token, unless it is about an assignment. The declarations that are open there
recover one by one, and all of them do if there are as many boundaries ahead, or if the last token
makes one. -/
structure StopsBefore (tokens : List (Located Token)) (last : Located Token)
    (error : Located SyntaxError) (front rest : List (Located Token)) : Prop where
  tokens_eq : tokens = front ++ rest
  place : error.value = .invalidAssignmentTarget ∨ error.span = (rest.headD last).span
  program_eq : ∃ previous,
    Grammar.program (Grammar.fuelFor tokens.length) ⟨tokens, last, last⟩ =
      .failed error (Cursor.recover (openDeclarations (front.map (·.value))) ⟨rest, last, previous⟩)
  parse_eq : parse tokens = .error ⟨error,
    last.value.stopsRecovery || decide (openDeclarations (front.map (·.value)) ≤ breaks rest)⟩

theorem exists_stopsBefore {tokens : List (Located Token)} {last : Located Token}
    (hlast : tokens.getLast? = some last) (hend : ∀ token ∈ tokens, token.value ≠ .endOfInput) :
    ∃ error front rest, StopsBefore tokens last error front rest := by
  have hcursor : Cursor.Truncated ⟨tokens, last, last⟩ := by
    constructor
    · exact hend
    · exact hend last (List.mem_of_getLast? hlast)
    · intro token htoken
      exact Option.some.inj (htoken.symm.trans hlast)
  have hfuel : 4 * (tokens.length + maxDepth) + 2 < Grammar.fuelFor tokens.length := by
    rw [Grammar.fuelFor]
    omega
  obtain ⟨error, passed, stop, hwalks, hprogram, hplace⟩ :=
    Grammar.program_of_truncated hcursor hfuel
  obtain ⟨front, more, htokens, rfl, hmore⟩ := hwalks.exists_front hcursor
  have hstopLast := hwalks.last_eq hcursor
  have hstop := hwalks.truncated hcursor
  obtain ⟨rest, final, previous⟩ := stop
  obtain rfl : final = last := hstopLast
  have hrecover : Cursor.recover (openDeclarations (front.map (·.value) ++ more))
      ⟨rest, final, previous⟩ =
        Cursor.recover (openDeclarations (front.map (·.value))) ⟨rest, final, previous⟩ := by
    cases more with
    | nil => rw [List.append_nil]
    | cons token more =>
        -- The last token is met again only behind the others.
        obtain rfl : rest = [] := hmore (List.cons_ne_nil token more)
        rw [openDeclarations, openDeclarations, Cursor.recover_of_nil, Cursor.recover_of_nil]
  rw [hrecover] at hprogram
  have hrecovers : (Cursor.recover (openDeclarations (front.map (·.value)))
      ⟨rest, final, previous⟩).isSome = (final.value.stopsRecovery ||
        decide (openDeclarations (front.map (·.value)) ≤ breaks rest)) := by
    rw [Bool.eq_iff_iff, Bool.or_eq_true, decide_eq_true_eq]
    exact hstop.isSome_recover_iff _
  refine ⟨error, front, rest, htokens, hplace, ⟨previous, hprogram⟩, ?_⟩
  rw [parse_of_failed hlast hprogram, hrecovers]

/-- In a stream that ends with the end of input, reading ends, and so does every recovery. -/
theorem recovers_of_endOfInput {tokens : List (Located Token)} {last : Located Token}
    (hlast : tokens.getLast? = some last) (hend : last.value = .endOfInput) :
    Grammar.program (Grammar.fuelFor tokens.length) ⟨tokens, last, last⟩ ≠ .unfinished ∧
      ∀ failure, parse tokens = .error failure → failure.recovers = true := by
  refine ⟨Grammar.program_ne_unfinished hend, fun failure hfailure => ?_⟩
  obtain ⟨recovery, hfailed, hrecovers⟩ :=
    failed_of_parse hlast (Grammar.program_ne_unfinished hend) hfailure
  exact hrecovers.trans (Grammar.program_failed hlast hend hfailed).1

/-- Parsing the first tokens of a text descends to an end. With no tokens, or with all of them, it
returns; with some but not all it stops with an error, which it returns if recovery ends. Recovery
ends just where the loop that passes tokens up to a boundary does: never, when that never comes to
one. -/
theorem parse_take {text : List Char} {tokens : List (Located Token)}
    (hscan : scan text = .ok tokens) (count : Nat) :
    ((count = 0 ∧ parse (tokens.take count) = .ok []) ∨
      (tokens.length ≤ count ∧
        (∀ last ∈ tokens.getLast?,
          Grammar.program (Grammar.fuelFor tokens.length) ⟨tokens, last, last⟩ ≠ .unfinished) ∧
        ∀ failure, parse (tokens.take count) = .error failure → failure.recovers = true) ∨
      (0 < count ∧ count < tokens.length ∧ ∃ last error front rest,
        (tokens.take count).getLast? = some last ∧
        StopsBefore (tokens.take count) last error front rest)) ∧
      ∀ cursor : Cursor,
        (∀ stop, cursor.synchronize = some stop ↔ cursor.advance.Skips stop) ∧
        (cursor.synchronize = none ↔
          ∀ count, (Cursor.advance^[count + 1] cursor).atBoundary = false) := by
  obtain ⟨front, finish, htokens, hfront⟩ := Lexer.exists_append_of_scan hscan
  refine ⟨?_, fun cursor =>
    ⟨fun stop => Cursor.synchronize_eq_some_iff, Cursor.synchronize_eq_none_iff⟩⟩
  rcases Nat.eq_zero_or_pos count with rfl | hpos
  · exact .inl ⟨rfl, rfl⟩
  rcases Nat.lt_or_ge count tokens.length with hlt | hge
  · have hlength : count ≤ front.length := by
      rw [htokens, List.length_append, List.length_singleton] at hlt
      exact Nat.le_of_lt_succ hlt
    have htake : tokens.take count = front.take count := by
      rw [htokens, List.take_append_of_le_length hlength]
    have hne : front.take count ≠ [] := by
      rw [← List.length_pos_iff, List.length_take]
      omega
    have hlast := List.getLast?_eq_some_getLast hne
    obtain ⟨error, passed, rest, hstops⟩ := exists_stopsBefore hlast fun token htoken =>
      hfront token (List.mem_of_mem_take htoken)
    rw [htake]
    exact .inr (.inr ⟨hpos, hlt, _, error, passed, rest, hlast, hstops⟩)
  · have hlast : tokens.getLast? = some ⟨.endOfInput, finish⟩ := by
      rw [htokens, List.getLast?_concat]
    obtain ⟨hprogram, hrecovers⟩ := recovers_of_endOfInput hlast rfl
    rw [List.take_of_length_le hge]
    refine .inr (.inl ⟨hge, fun last hmem => ?_, hrecovers⟩)
    cases hlast.symm.trans hmem
    exact hprogram

/-- A block with a variable that has no name, of which all but the end of input is kept: the block
and the variable recover behind one semicolon each. -/
theorem parse_take_block :
    ∃ tokens, scan "\x7bvar;x;y".toList = .ok tokens ∧
      (∃ last error front rest, (tokens.take 6).getLast? = some last ∧
        StopsBefore (tokens.take 6) last error front rest) ∧
      ∃ error, parse (tokens.take 6) = .error ⟨error, true⟩ := by
  let token (value : Token) (start stop : Nat) : Located Token := ⟨value, ⟨1, start, stop⟩⟩
  let tokens : List (Located Token) :=
    [token (.symbol .openCurly) 0 1, token (.keyword .kwVar) 1 4, token (.symbol .semicolon) 4 5,
      token (.name "x") 5 6, token (.symbol .semicolon) 6 7, token (.name "y") 7 8,
      token .endOfInput 8 8]
  have hscan : scan "\x7bvar;x;y".toList = .ok tokens := by decide +kernel
  have hrecovers : (match parse (tokens.take 6) with
      | .error failure => failure.recovers
      | .ok _ => false) = true := by
    decide +kernel
  obtain ⟨(⟨hzero, -⟩ | ⟨hlength, -⟩ | ⟨-, -, hstops⟩), -⟩ := parse_take hscan 6
  · cases hzero
  · exact absurd hlength (by decide)
  refine ⟨tokens, hscan, hstops, ?_⟩
  split at hrecovers
  next failure hfailure =>
    obtain ⟨error, recovers⟩ := failure
    cases hrecovers
    exact ⟨error, hfailure⟩
  next => cases hrecovers

/-- Of the text x only the name is kept: the semicolon that is missing is looked for behind it, for
ever. -/
theorem parse_take_name :
    let name : Located Token := ⟨.name "x", ⟨1, 0, 1⟩⟩
    let error : Located SyntaxError :=
      ⟨.unexpectedToken "`;` after expression" (.name "x"), ⟨1, 0, 1⟩⟩
    scan "x".toList = .ok [name, ⟨.endOfInput, ⟨1, 1, 1⟩⟩] ∧
      Grammar.program (Grammar.fuelFor 1) ⟨[name], name, name⟩ =
        .failed error (Cursor.synchronize ⟨[], name, name⟩) ∧
      (∀ count, (Cursor.advance^[count + 1] ⟨[], name, name⟩).atBoundary = false) ∧
      parse [name] = .error ⟨error, false⟩ := by
  intro name error
  have hnever (count : Nat) :
      (Cursor.advance^[count + 1] ⟨[], name, name⟩).atBoundary = false := by
    rw [Cursor.iterate_advance_of_nil]
    decide
  have hfailed : (match parse [name] with
      | .error failure => decide (failure = ⟨error, false⟩)
      | .ok _ => false) = true := by
    decide +kernel
  have hparse : parse [name] = .error ⟨error, false⟩ := by
    split at hfailed
    next failure hfailure => rw [hfailure, of_decide_eq_true hfailed]
    next => cases hfailed
  have hprogram : Grammar.program (Grammar.fuelFor 1) ⟨[name], name, name⟩ =
      .failed error none := by
    have hcases := hparse
    simp only [parse, List.getLast?_singleton, List.length_singleton] at hcases
    cases houtcome : Grammar.program (Grammar.fuelFor 1) ⟨[name], name, name⟩ with
    | failed found recovery =>
        rw [houtcome] at hcases
        simpa using hcases
    | _ =>
        rw [houtcome] at hcases
        simp at hcases
  refine ⟨by decide +kernel, ?_, hnever, hparse⟩
  rw [hprogram, Cursor.synchronize_eq_none_iff.mpr hnever]

end Stacklet
