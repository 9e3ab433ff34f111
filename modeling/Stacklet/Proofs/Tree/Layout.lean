import Stacklet.Proofs.Tree.ErrorPlaces
import Stacklet.Proofs.Tree.LockstepRules
import Stacklet.Proofs.Tree.Parsing

/-! # Parsing and layout

What a stream of tokens is parsed to does not depend on where the tokens stand. Two streams of the
same tokens are read in lockstep, with no edge at which they part: either both are programs with the
same tree up to places, or the same is wrong with both.
-/

namespace Stacklet

theorem Cursor.peek_value_eq (cursor : Cursor) :
    cursor.peek.value = (cursor.rest.map (·.value)).headD cursor.last.value := by
  obtain ⟨_ | ⟨token, rest⟩, last, previous⟩ := cursor <;> rfl

/-- The same tokens are ahead of two cursors, in places of their own. -/
structure Cursor.SameAhead (left right : Cursor) : Prop where
  rest : left.rest.map (·.value) = right.rest.map (·.value)
  last : left.last.value = right.last.value

theorem Cursor.SameAhead.peek {left right : Cursor} (h : left.SameAhead right) :
    left.peek.value = right.peek.value := by
  rw [Cursor.peek_value_eq, Cursor.peek_value_eq, h.rest, h.last]

theorem Cursor.SameAhead.advance {left right : Cursor} (h : left.SameAhead right) :
    left.advance.SameAhead right.advance := by
  have hend : left.atEnd = right.atEnd := by
    rw [Cursor.atEnd, Cursor.atEnd, h.peek]
  unfold Cursor.advance
  rw [hend]
  split
  · exact ⟨h.rest, h.last⟩
  · refine ⟨?_, h.last⟩
    simp only [List.map_tail, h.rest]

/-- Runs on the same tokens in different places. Nothing is left to compare when one of them does
not come to an end, or when the same is wrong with all of them. -/
def layouts {ι : Type} (guide : ι) : Comparison ι where
  guide := guide
  Compared _ _ := True
  InStep cursors := ∀ i j, (cursors i).SameAhead (cursors j)
  AtEdge _ := False
  Rooms rooms := ∀ i j, rooms i = rooms j
  Fails troubles := (∃ i, troubles i = some .unfinished) ∨
    ∃ error, ∀ i, troubles i = some (.failed error)
  Blocks _ := False
  Counts _ := True
  IsGuided := False
  IsQuiet := True
  peek_eq h i j := (h i j).peek
  advance h _ := .inl fun i j => (h i j).advance
  rooms := by
    intro rooms hrooms
    cases hroom : rooms guide with
    | zero =>
        refine .inr fun troubles htroubles => .inr ⟨.tooDeep, fun i => htroubles i ?_⟩
        rw [hrooms i guide, hroom]
    | succ room =>
        refine .inl ⟨fun _ => room, fun _ _ => rfl, ?_⟩
        funext i
        rw [hrooms i guide, hroom]
  fails_mono := by
    intro troubles more hfails hmore
    rcases hfails with ⟨i, hi⟩ | ⟨error, herror⟩
    · refine .inl ⟨i, ?_⟩
      rw [hmore i (hi ▸ nofun), hi]
    · refine .inr ⟨error, fun i => ?_⟩
      rw [hmore i (herror i ▸ nofun), herror i]
  fails_unfinished i hi := .inl ⟨i, hi⟩
  fails_failed error herror := .inr ⟨error, herror⟩
  fails_guided := False.elim
  fails_blocked := False.elim
  counts_refusal _ := trivial
  counts_loud _ := trivial
  edge_guided := False.elim
  edge_blocks := False.elim
  edge_guide := False.elim
  edge_else := False.elim
  edge_quiet _ := False.elim

theorem layouts_keeps {ι : Type} (guide : ι) (fuels : ι → Nat) :
    (layouts guide).Keeps fun i => Grammar.scopeWith (fuels i) :=
  Comparison.keeps_scopeWith (fun _ => False.elim) fuels

/-- What the values of the tokens are determines what a stream is parsed to, up to places, and what
is wrong with it otherwise. -/
theorem parse_determined {values : List Token} (hend : values.getLast? = some .endOfInput) :
    (∃ tree, ∀ tokens, tokens.map (·.value) = values →
      ∃ statements, parse tokens = .ok statements ∧ Stmt.unplacedAll statements = tree) ∨
    ∃ error, ∀ tokens, tokens.map (·.value) = values →
      ∃ failure, parse tokens = .error failure ∧ failure.error.value = error := by
  -- the runs are indexed by the streams themselves
  let Stream := { tokens : List (Located Token) // tokens.map (·.value) = values }
  have hguide : (values.map fun value => (⟨value, ⟨0, 0, 0⟩⟩ : Located Token)).map (·.value) =
      values := by
    rw [List.map_map]
    exact List.map_id values
  let guide : Stream := ⟨_, hguide⟩
  have hlasts : ∀ stream : Stream, ∃ last, stream.1.getLast? = some last ∧
      last.value = .endOfInput := by
    intro stream
    have hlast : stream.1.getLast?.map (·.value) = some .endOfInput := by
      rw [← List.getLast?_map, stream.2, hend]
    exact Option.map_eq_some_iff.mp hlast
  choose lasts hlast hlastEnd using hlasts
  let start : Stream → Cursor := fun stream => ⟨stream.1, lasts stream, lasts stream⟩
  have hstart : (layouts guide).Together start := by
    refine .inl fun i j => ⟨i.2.trans j.2.symm, ?_⟩
    rw [hlastEnd i, hlastEnd j]
  have hkeeps := layouts_keeps guide fun stream => Grammar.fuelFor stream.1.length
  rcases Comparison.agree_program hkeeps (fun _ _ => rfl) hstart with
    (⟨stream, hunfinished⟩ | ⟨error, herror⟩) | ⟨trees, reached, hdone, hsame, -⟩ |
    ⟨⟨_, hedge, -⟩, -⟩
  · have hnever := Outcome.eq_unfinished hunfinished
    exact absurd hnever (Grammar.program_ne_unfinished (hlastEnd stream))
  · refine .inr ⟨error, fun tokens htokens => ?_⟩
    let stream : Stream := ⟨tokens, htokens⟩
    obtain ⟨span, recovery, hfailed⟩ := Outcome.exists_eq_failed (herror stream)
    exact ⟨_, parse_of_failed (hlast stream) hfailed, rfl⟩
  · refine .inl ⟨Stmt.unplacedAll (trees guide), fun tokens htokens => ?_⟩
    let stream : Stream := ⟨tokens, htokens⟩
    exact ⟨_, parse_of_done (hlast stream) (hdone stream), hsame stream guide trivial⟩
  · exact hedge.elim

end Stacklet
