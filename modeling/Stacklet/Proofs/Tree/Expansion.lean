import Stacklet.Proofs.Tree.Loops

/-! # The expansion of `for`

A `for` means its expansion, wherever in a program it stands. Three runs are on the program: one
with the loop written with `while`, one with the loop written with `for`, and the guide, with a
`print` in the place of the loop. The grammar lets that stand in the place of any statement, so
nothing is wrong with the tokens of the guide. Around the loop the runs are in lockstep.
-/

namespace Stacklet

/-! ## Places for statements -/

namespace Form

/-- The tokens around a statement in a word of a form. Only `fun` is ever avoided by the grammar;
where it is, the tokens before the statement do not begin with it. -/
inductive Surrounds : Form → List Token → List Token → Prop
  | here : Surrounds (category .statement) [] []
  | category {category : Category} {before behind : List Token}
      (h : Surrounds category.rule before behind) : Surrounds (.category category) before behind
  | front {form more : Form} {before behind word : List Token} (h : Surrounds form before behind)
      (hback : Spells more word) : Surrounds (seq form more) before (behind ++ word)
  | back {form more : Form} {before behind word : List Token} (hfront : Spells form word)
      (h : Surrounds more before behind) : Surrounds (seq form more) (word ++ before) behind
  | left {form other : Form} {before behind : List Token} (h : Surrounds form before behind) :
      Surrounds (alt form other) before behind
  | right {form other : Form} {before behind : List Token} (h : Surrounds other before behind) :
      Surrounds (alt form other) before behind
  | first {form : Form} {before behind word : List Token} (h : Surrounds form before behind)
      (hback : Spells (many form) word) : Surrounds (many form) before (behind ++ word)
  | later {form : Form} {before behind word : List Token} (hfront : Spells form word)
      (h : Surrounds (many form) before behind) : Surrounds (many form) (word ++ before) behind
  | avoiding {form : Form} {before behind : List Token} (h : Surrounds form before behind)
      (hfirst : before.head? ≠ some (.keyword .kwFun)) :
      Surrounds (avoiding (.keyword .kwFun) form) before behind

/-- Any statement can stand where one stands, if it does not begin with `fun`. -/
theorem Surrounds.spells {form : Form} {before behind word : List Token} {token : Token}
    (h : form.Surrounds before behind) (hword : (Form.category .statement).Spells (token :: word))
    (hfun : token ≠ .keyword .kwFun) : form.Spells (before ++ (token :: word ++ behind)) := by
  induction h with
  | here =>
      rw [List.nil_append, List.append_nil]
      exact hword
  | category _ ih => exact .category ih
  | front _ hback ih =>
      have hspells := ih.seq hback
      simp only [List.append_assoc] at hspells ⊢
      exact hspells
  | back hfront _ ih =>
      rw [List.append_assoc]
      exact hfront.seq ih
  | left _ ih => exact .left ih
  | right _ ih => exact .right ih
  | first _ hback ih =>
      have hspells := ih.some hback
      simp only [List.append_assoc] at hspells ⊢
      exact hspells
  | later hfront _ ih =>
      rw [List.append_assoc]
      exact hfront.some ih
  | @avoiding _ before _ _ hfirst ih =>
      refine .avoiding ih ?_
      cases before with
      | nil => exact fun heq => hfun (Option.some.inj heq)
      | cons first before => exact hfirst

/-- A statement in a program has the end of input somewhere behind it. -/
theorem Surrounds.getLast?_eq {before behind : List Token} (h : program.Surrounds before behind) :
    behind.getLast? = some .endOfInput := by
  unfold program sequence sequence sequence at h
  cases h with
  | front _ hback =>
      cases hback with
      | seq hend hnothing =>
          cases hnothing
          cases hend with
          | one hend =>
              simp only [List.mem_singleton, decide_eq_true_eq] at hend
              rw [hend, List.append_nil, List.getLast?_concat]
  | back _ h =>
      cases h with
      | front h _ => cases h
      | back _ h => cases h

theorem spells_print :
    (category .statement).Spells [.keyword .kwPrint, .keyword .kwNil, .symbol .semicolon] :=
  .category (.right (.right (.left
    (.seq (.one rfl) (.seq (.seq spells_expression (.seq (.one rfl) .nothing)) .nothing)))))

end Form

/-! ## The place of a loop -/

namespace Grammar

open Reader

namespace Clauses

variable {clauses : Clauses} {behind : List Token}

theorem asWhile_head (clauses : Clauses) (behind : List Token) :
    (clauses.asWhile ++ behind).headD .endOfInput = .symbol .openCurly ∨
      (clauses.asWhile ++ behind).headD .endOfInput = .keyword .kwWhile := by
  unfold asWhile
  cases clauses.initializer with
  | none => exact .inr rfl
  | some initializer => exact .inl rfl

/-- The streams of a program part before a loop and join behind it. The guide prints something
instead. -/
def parting (clauses : Clauses) (behind : List Token) : Parting where
  tails := Run.pick (.keyword .kwPrint :: .keyword .kwNil :: .symbol .semicolon :: behind)
    (clauses.asWhile ++ behind) (clauses.asFor ++ behind)
  quiet := True
  beyond := True
  guide_halts := by
    refine .inr ⟨rfl, fun i => ?_⟩
    cases i with
    | left =>
        show (Token.opensStatement _ = true ∧ Token.opensDeclaration _ = false)
        rcases clauses.asWhile_head behind with hhead | hhead <;> exact hhead ▸ ⟨rfl, rfl⟩
    | _ => exact ⟨rfl, rfl⟩
  ne_else
    | .left => by
        rcases clauses.asWhile_head behind with hhead | hhead <;> exact hhead ▸ nofun
    | .guide | .right => nofun
  isQuiet _
    | .left => by
        rcases clauses.asWhile_head behind with hhead | hhead <;> exact hhead ▸ rfl
    | .guide | .right => rfl
  beyond_quiet := id
  beyond_blocks _ := by
    rcases clauses.asWhile_head behind with hhead | hhead <;> exact hhead ▸ rfl

theorem parting_tails (clauses : Clauses) (behind : List Token) :
    ∀ i, ∃ word, (clauses.parting behind).tails i = word ++ behind := by
  intro i
  cases i with
  | guide => exact ⟨[.keyword .kwPrint, .keyword .kwNil, .symbol .semicolon], rfl⟩
  | left => exact ⟨clauses.asWhile, rfl⟩
  | right => exact ⟨clauses.asFor, rfl⟩

/-- Where the streams part, both ways of writing the loop are read to the same statement. -/
theorem agree_loop (hproper : clauses.Proper) (hnext : behind.headD .endOfInput ≠ .keyword .kwElse)
    {fuels rooms : Run → Nat} {cursors : Run → Cursor}
    (hrooms : (clauses.parting behind).comparison.Rooms rooms)
    (hedge : (clauses.parting behind).comparison.AtEdge cursors) :
    (clauses.parting behind).comparison.Agree False cursors
      (fun i => statementWith (fuels i) (rooms i))
      ((clauses.parting behind).comparison.Same Stmt.unplaced) := by
  obtain ⟨hright, hguide⟩ := hrooms
  have hleft : rooms .left ≤ rooms .left - 1 + 1 := by omega
  rcases comes_asWhile hproper hleft (hedge .left) hnext with
    ⟨left, leftEnd, hleftDone, hleftEnd, _, _, _, _, htree, hcarried⟩ | ⟨trouble, htrouble, -⟩
  · -- what the expansion has room for leaves room for the other two
    have hroom := CarriesStmt.room_pos hcarried.body
    have hprinted : 1 < rooms .guide := by
      have := hguide trivial
      omega
    have hmore : rooms .left - 1 + 1 ≤ rooms .right := by omega
    rcases @comes_print _ (fuels .guide) _ _ .nil hprinted (hedge .guide) with
      ⟨printed, guideEnd, hguideDone, hguideEnd⟩ | ⟨_, htrouble, rfl⟩
    · rcases hcarried.comes_asFor hproper hmore (hedge .right) hnext with
        ⟨right, rightEnd, hrightDone, hrightEnd, hsame⟩ | ⟨_, htrouble, rfl⟩
      · refine .inr (.inl ⟨Run.pick printed left right, Run.pick guideEnd leftEnd rightEnd,
          ?_, ?_, ?_⟩)
        · intro i
          cases i
          · exact hguideDone
          · exact hleftDone
          · exact hrightDone
        · rintro _ _ ⟨rfl, rfl⟩
          exact htree.trans hsame.symm
        · refine .inl (.inr ⟨trivial, behind, fun i => ?_⟩)
          cases i
          · exact hguideEnd
          · exact hleftEnd
          · exact hrightEnd
      · exact .inl (.inr (.inr htrouble))
    · exact .inl (.inl ⟨.unfinished, htrouble, fun _ => rfl⟩)
  · apply Or.inl
    apply Or.inr
    apply Or.inl
    intro hnone
    cases htrouble.symm.trans hnone

end Clauses

end Grammar

/-! ## Programs -/

/-- Nothing is wrong with the tokens of a word of the grammar. -/
theorem isRefusal_of_spells {tokens : List (Located Token)} {last : Located Token}
    {trouble : Trouble} (hlast : tokens.getLast? = some last) (hend : last.value = .endOfInput)
    (hspells : Form.program.Spells (tokens.map (·.value)))
    (h : (Grammar.program (Grammar.fuelFor tokens.length) ⟨tokens, last, last⟩).trouble? =
      some trouble) : ¬ trouble.isRefusal = true := by
  cases trouble with
  | unfinished => exact absurd (Outcome.eq_unfinished h) (Grammar.program_ne_unfinished hend)
  | failed error =>
      intro hrefusal
      obtain ⟨found, hfound⟩ := Option.isSome_iff_exists.mp hrefusal
      obtain ⟨span, recovery, hfailed⟩ := Outcome.exists_eq_failed h
      obtain ⟨before, behind, htokens, -, hdead⟩ :=
        (Grammar.program_failed hlast hend hfailed).2 found hfound
      apply hdead (behind.map (·.value))
      rw [htokens, List.map_append, List.map_cons] at hspells
      exact hspells

/-- A `for` means its expansion. If a loop is written with `while` where the grammar has a
statement, not before an `else`, and the whole is a program, then it is a program with the same
tree, up to places, when the loop is written with `for`. Whatever is read of the `for` is put
together from those parts that are there: without an initializer or an increment there is no block
for it, and without a condition there is the constant, which has no place. -/
theorem parse_expansion {clauses : Grammar.Clauses} (hproper : clauses.Proper) :
    (∀ {before behind : List Token} {expanded contracted : List (Located Token)}
      {tree : List Stmt}, Form.program.Surrounds before behind →
      behind.headD .endOfInput ≠ .keyword .kwElse →
      expanded.map (·.value) = before ++ (clauses.asWhile ++ behind) →
      contracted.map (·.value) = before ++ (clauses.asFor ++ behind) →
      parse expanded = .ok tree →
      ∃ same, parse contracted = .ok same ∧ Stmt.unplacedAll same = Stmt.unplacedAll tree) ∧
    ∀ {fuel room : Nat} {cursor reached : Cursor} {rest : List Token} {stmt : Stmt},
      cursor.Faces (clauses.asFor ++ rest) → rest.headD .endOfInput ≠ .keyword .kwElse →
      Grammar.statementWith fuel room cursor = .done stmt reached →
      ∃ initializer condition increment body,
        stmt = Grammar.forLoop initializer condition increment body ∧
        initializer.isSome = clauses.initializer.isSome ∧
        condition.isSome = clauses.condition.isSome ∧
        increment.isSome = clauses.increment.isSome := by
  refine ⟨?_, fun hcursor hnext hdone => hproper.forLoop_of_done hcursor hnext hdone⟩
  intro before behind expanded contracted tree hplace hnext hexpanded hcontracted hparse
  let parting := clauses.parting behind
  let guide : Cursor := .before (before ++ parting.tails .guide)
  let streams : Run → List (Located Token) := Run.pick guide.rest expanded contracted
  have hvalues : ∀ i, (streams i).map (·.value) = before ++ parting.tails i := by
    intro i
    cases i with
    | guide => exact (Cursor.faces_before _).rest_eq
    | left => exact hexpanded
    | right => exact hcontracted
  have hlasts : ∀ i, ∃ last, (streams i).getLast? = some last ∧ last.value = .endOfInput := by
    intro i
    have hlast : (streams i).getLast?.map (·.value) = some .endOfInput := by
      obtain ⟨word, hword⟩ := clauses.parting_tails behind i
      rw [← List.getLast?_map, hvalues i, hword, List.getLast?_append, List.getLast?_append,
        hplace.getLast?_eq]
      rfl
    exact Option.map_eq_some_iff.mp hlast
  choose lasts hlast hend using hlasts
  let start : Run → Cursor := fun i => ⟨streams i, lasts i, lasts i⟩
  have hstart : parting.comparison.Together start := by
    have hfaces : ∀ i, (start i).Faces (before ++ parting.tails i) := fun i => ⟨hvalues i, hend i⟩
    cases before with
    | nil => exact .inr hfaces
    | cons token word => exact .inl (.inl ⟨token, word, hfaces⟩)
  obtain ⟨reached, hdone⟩ := done_of_parse (hlast .left) hparse
  -- none of the troubles that would end the comparison is there, and no edge is at the end
  have hkeeps := Comparison.keeps_scopeWith (Grammar.Clauses.agree_loop hproper hnext)
    fun i => Grammar.fuelFor (streams i).length
  rcases Comparison.agree_program hkeeps ⟨Nat.le_refl _, fun _ => Nat.le_refl _⟩ hstart with
    (⟨trouble, htrouble, hrefusal⟩ | hleft | hunfinished) | ⟨trees, ends, hdones, hsame, -⟩ |
    ⟨⟨cursors, hedge, hpeek⟩, -⟩
  · have hspells : Form.program.Spells ((streams .guide).map (·.value)) := by
      rw [hvalues .guide]
      exact hplace.spells Form.spells_print (by decide)
    have hright := isRefusal_of_spells (hlast .guide) (hend .guide) hspells htrouble
    exact absurd (hrefusal trivial) hright
  · exact absurd (congrArg Outcome.trouble? hdone) hleft
  · exact absurd (Outcome.eq_unfinished hunfinished) (Grammar.program_ne_unfinished (hend .right))
  · have htree : trees .left = tree := (Outcome.done.inj ((hdones .left).symm.trans hdone)).1
    refine ⟨trees .right, parse_of_done (hlast .right) (hdones .right), ?_⟩
    rw [← hsame .left .right ⟨rfl, rfl⟩, htree]
  · cases (hedge .guide).peek.symm.trans hpeek

/-- A loop with all its parts, behind a condition, and one with nothing but a body. -/
theorem parse_expansion_if :
    let token (value : Token) : Located Token := ⟨value, ⟨1, 0, 1⟩⟩
    let clauses : Grammar.Clauses :=
      { initializer := some (.var "i" (some [.keyword .kwNil]))
        condition := some [.name "i"]
        increment := some [.name "i", .symbol .assign, .keyword .kwNil]
        body := [.keyword .kwPrint, .name "i", .symbol .semicolon] }
    let endless : Grammar.Clauses := ⟨none, none, none, clauses.body⟩
    let before : List Token :=
      [.keyword .kwIf, .symbol .openParen, .keyword .kwNil, .symbol .closeParen]
    (∃ tree same, parse ((before ++ (clauses.asWhile ++ [Token.endOfInput])).map token) = .ok tree ∧
      parse ((before ++ (clauses.asFor ++ [Token.endOfInput])).map token) = .ok same ∧
      Stmt.unplacedAll same = Stmt.unplacedAll tree) ∧
    ∃ body reached, Grammar.statementWith 8 4 (.before endless.asFor) =
      .done (.whileLoop (.literal (.bool true) none) body) reached := by
  intro token clauses endless before
  have hbody : Reader.IsPiece Grammar.statementWith clauses.body :=
    Reader.isPiece_of_isWhole 6 2 (by decide +kernel)
  have hproper : clauses.Proper := by
    constructor
    · rintro _ ⟨⟩
      refine ⟨?_, nofun⟩
      rintro _ ⟨⟩
      exact Grammar.isPiece_literal .nil
    · rintro _ ⟨⟩
      exact Reader.isPiece_of_isWhole 4 1 (by decide +kernel)
    · rintro _ ⟨⟩
      exact ⟨Reader.isPiece_of_isWhole 6 2 (by decide +kernel), nofun⟩
    · exact ⟨hbody, nofun⟩
  have hplace : Form.program.Surrounds before [.endOfInput] := by
    have hif : Form.ifStatement.Surrounds
        [.symbol .openParen, .keyword .kwNil, .symbol .closeParen] [] :=
      .back (.one rfl) (.back Form.spells_expression (.back (.one rfl)
        (.front .here (.seq (.right .nothing) .nothing))))
    have hdeclaration : (Form.category .declaration).Surrounds before [] :=
      .category (.right (.right (.right (.avoiding
        (.category (.right (.left (.back (.one rfl) (.front hif .nothing))))) nofun))))
    exact .front (.first hdeclaration .none) (.seq (.one rfl) .nothing)
  have hvalues : ∀ word : List Token, (word.map token).map (·.value) = word := by
    intro word
    rw [List.map_map]
    exact List.map_id word
  constructor
  · have hok : (parse ((before ++ (clauses.asWhile ++ [Token.endOfInput])).map token)).isOk =
        true := by
      decide +kernel
    cases hparse : parse ((before ++ (clauses.asWhile ++ [Token.endOfInput])).map token) with
    | error failure =>
        rw [hparse] at hok
        cases hok
    | ok tree =>
        obtain ⟨same, hsame, htree⟩ :=
          (parse_expansion hproper).1 hplace nofun (hvalues _) (hvalues _) hparse
        exact ⟨tree, same, rfl, hsame, htree⟩
  · have hendless : endless.Proper := ⟨nofun, nofun, nofun, hbody, nofun⟩
    have hfaces : (Cursor.before endless.asFor).Faces (endless.asFor ++ []) := by
      rw [List.append_nil]
      exact Cursor.faces_before _
    have hdone : (Grammar.statementWith 8 4 (.before endless.asFor)).isWhole = true := by
      decide +kernel
    obtain ⟨stmt, reached, hstmt, -⟩ := Outcome.exists_of_isWhole hdone
    obtain ⟨_ | _, _ | _, _ | _, body, rfl, ⟨⟩, ⟨⟩, ⟨⟩⟩ :=
      (parse_expansion hendless).2 hfaces nofun hstmt
    exact ⟨body, reached, hstmt⟩

end Stacklet
