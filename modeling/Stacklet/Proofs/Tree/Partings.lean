import Stacklet.Proofs.Tree.LockstepRules

/-! # Streams that part

A guide and two other runs are on streams that begin alike and part at one place. The guide comes to
an end, and so does the left run; the right one has at least the room for nesting that the left one
has. If the stream of the guide ends where the streams part, then what is read of the common part is
a piece of its own: it is read to its last token wherever it stands, to the same tree. Otherwise a
statement stands there, and behind it the streams join again.
-/

namespace Stacklet

open Reader

/-! ## Tokens ahead -/

/-- The tokens ahead of a cursor, up to the end of input. -/
structure Cursor.Faces (cursor : Cursor) (word : List Token) : Prop where
  rest_eq : cursor.rest.map (·.value) = word
  last_eq : cursor.last.value = .endOfInput

theorem Cursor.Faces.peek {cursor : Cursor} {word : List Token} (h : cursor.Faces word) :
    cursor.peek.value = word.headD .endOfInput := by
  obtain ⟨_ | ⟨token, rest⟩, last, previous⟩ := cursor
  · rw [← h.rest_eq]
    exact h.last_eq
  · rw [← h.rest_eq]
    rfl

theorem Cursor.Faces.advance {cursor : Cursor} {token : Token} {word : List Token}
    (h : cursor.Faces (token :: word)) (hne : token ≠ .endOfInput) : cursor.advance.Faces word := by
  have hpeek : cursor.atEnd = false := decide_eq_false (h.peek ▸ hne)
  unfold Cursor.advance
  rw [hpeek]
  refine ⟨?_, h.last_eq⟩
  simp only [Bool.false_eq_true, if_false, List.map_tail, h.rest_eq, List.tail_cons]

theorem Cursor.Faces.unique {cursor : Cursor} {word other : List Token} (h : cursor.Faces word)
    (hother : cursor.Faces other) : word = other :=
  h.rest_eq.symm.trans hother.rest_eq

/-- A cursor before given tokens, which have no places. -/
def Cursor.before (word : List Token) : Cursor :=
  let placeless (token : Token) : Located Token := ⟨token, ⟨0, 0, 0⟩⟩
  ⟨word.map placeless, placeless .endOfInput, placeless .endOfInput⟩

theorem Cursor.faces_before (word : List Token) : (Cursor.before word).Faces word := by
  refine ⟨?_, rfl⟩
  unfold Cursor.before
  rw [List.map_map]
  exact List.map_id word

/-! ## The comparison -/

/-- The runs on streams that part. -/
inductive Run where
  | guide
  | left
  | right
deriving DecidableEq

/-- One value for each run. -/
def Run.pick {α : Type} (guide left right : α) : Run → α
  | .guide => guide
  | .left => left
  | .right => right

/-- Where three streams part, with what is ahead of each run there. -/
structure Parting where
  tails : Run → List Token
  /-- At the edge no run goes on with an expression. -/
  quiet : Prop
  /-- The streams join again, and the runs are compared behind that place as well. The left run has
  no more room for nesting than the guide, of which nothing but its tokens is in question. -/
  beyond : Prop
  guide_halts : ((tails .guide).headD .endOfInput = .endOfInput ∧ ¬ beyond) ∨
    (tails .guide).headD .endOfInput = .keyword .kwPrint ∧
      ∀ i, ((tails i).headD .endOfInput).opensStatement = true ∧
        ((tails i).headD .endOfInput).opensDeclaration = false
  ne_else : ∀ i, (tails i).headD .endOfInput ≠ .keyword .kwElse
  isQuiet : quiet → ∀ i, ((tails i).headD .endOfInput).isQuiet = true
  beyond_quiet : beyond → quiet
  beyond_blocks : beyond → ((tails .left).headD .endOfInput).isBlocking = true

namespace Parting

variable {α β : Type} (parting : Parting)

/-- The comparison of the runs. The guide and the left run have to come to an end, and the right one
may only be in want of fuel. -/
def comparison : Comparison Run where
  guide := .guide
  Compared i j := i = .left ∧ j = .right
  InStep cursors :=
    (∃ token word, ∀ i, (cursors i).Faces (token :: word ++ parting.tails i)) ∨
      parting.beyond ∧ ∃ word, ∀ i, (cursors i).Faces word
  AtEdge cursors := ∀ i, (cursors i).Faces (parting.tails i)
  Rooms rooms := rooms .left ≤ rooms .right ∧ (parting.beyond → rooms .left ≤ rooms .guide)
  Fails troubles :=
    (∃ trouble, troubles .guide = some trouble ∧ (parting.beyond → trouble.isRefusal = true)) ∨
      troubles .left ≠ none ∨ troubles .right = some .unfinished
  Blocks i := i = .guide ∨ parting.beyond ∧ i = .left
  Counts trouble := parting.beyond → trouble.isRefusal = true
  IsGuided := True
  IsQuiet := parting.quiet
  peek_eq := by
    intro cursors hcursors i j
    rcases hcursors with ⟨token, word, hfaces⟩ | ⟨-, word, hfaces⟩
    · exact (hfaces i).peek.trans (hfaces j).peek.symm
    · exact (hfaces i).peek.trans (hfaces j).peek.symm
  advance := by
    intro cursors hcursors hpeek
    rcases hcursors with ⟨token, word, hfaces⟩ | ⟨hbeyond, word, hfaces⟩
    · have hne : token ≠ .endOfInput := fun heq => hpeek ((hfaces .guide).peek.trans heq)
      have hadvance := fun i => (hfaces i).advance hne
      cases word with
      | nil => exact .inr hadvance
      | cons token word => exact .inl (.inl ⟨token, word, hadvance⟩)
    · cases word with
      | nil => exact absurd (hfaces .guide).peek hpeek
      | cons token word =>
          have hne : token ≠ .endOfInput := fun heq => hpeek ((hfaces .guide).peek.trans heq)
          exact .inl (.inr ⟨hbeyond, word, fun i => (hfaces i).advance hne⟩)
  rooms := by
    intro rooms ⟨hright, hguide⟩
    by_cases hzero : ∃ i, rooms i = 0
    · refine .inr fun troubles htroubles => ?_
      by_cases hleft : rooms .left = 0
      · apply Or.inr
        apply Or.inl
        rw [htroubles .left hleft]
        exact nofun
      · -- the left run has room, so the guide has none and stands alone
        obtain ⟨i, hi⟩ := hzero
        cases i with
        | guide =>
            refine .inl ⟨_, htroubles .guide hi, fun hbeyond => ?_⟩
            exact absurd (Nat.le_zero.mp (hi ▸ hguide hbeyond)) hleft
        | left => exact absurd hi hleft
        | right => exact absurd (Nat.le_zero.mp (hi ▸ hright)) hleft
    · have hpos : ∀ i, rooms i ≠ 0 := fun i hi => hzero ⟨i, hi⟩
      refine .inl ⟨fun i => rooms i - 1, ⟨Nat.sub_le_sub_right hright 1, fun hbeyond => ?_⟩, ?_⟩
      · exact Nat.sub_le_sub_right (hguide hbeyond) 1
      · funext i
        exact (Nat.succ_pred_eq_of_ne_zero (hpos i)).symm
  fails_mono := by
    intro troubles more hfails hmore
    rcases hfails with ⟨trouble, hguide, hcounts⟩ | hleft | hright
    · refine .inl ⟨trouble, ?_, hcounts⟩
      rw [hmore .guide (hguide ▸ nofun), hguide]
    · exact .inr (.inl (hmore .left hleft ▸ hleft))
    · refine .inr (.inr ?_)
      rw [hmore .right (hright ▸ nofun), hright]
  fails_unfinished := by
    intro troubles i hi
    cases i with
    | guide => exact .inl ⟨.unfinished, hi, fun _ => rfl⟩
    | left => exact .inr (.inl (hi ▸ nofun))
    | right => exact .inr (.inr hi)
  fails_failed error herror := .inr (.inl (herror .left ▸ nofun))
  fails_guided _ hcounts hguide := .inl ⟨_, hguide, hcounts⟩
  fails_blocked := by
    intro troubles _ hblocked
    by_cases hbeyond : parting.beyond
    · exact .inr (.inl (hblocked .left (.inr ⟨hbeyond, rfl⟩)))
    · obtain ⟨trouble, htrouble⟩ := Option.ne_none_iff_exists'.mp (hblocked .guide (.inl rfl))
      exact .inl ⟨trouble, htrouble, fun h => absurd h hbeyond⟩
  counts_refusal hrefusal _ := hrefusal
  counts_loud hloud hbeyond := absurd (parting.beyond_quiet hbeyond) hloud
  edge_guided _ := trivial
  edge_blocks := by
    intro cursors i hblocks hedge
    rw [(hedge i).peek]
    rcases hblocks with rfl | ⟨hbeyond, rfl⟩
    · rcases parting.guide_halts with ⟨hhead, -⟩ | ⟨hhead, -⟩ <;> rw [hhead] <;> rfl
    · exact parting.beyond_blocks hbeyond
  edge_guide := by
    intro cursors hedge
    simp only [fun i => (hedge i).peek]
    refine parting.guide_halts.imp_left ?_
    exact fun ⟨hhead, hbeyond⟩ => ⟨hhead, fun _ h => absurd h hbeyond⟩
  edge_else hedge i := (hedge i).peek ▸ parting.ne_else i
  edge_quiet hquiet hedge i := (hedge i).peek ▸ parting.isQuiet hquiet i

/-- A comparison that ends where the streams part: statements are not begun there. -/
theorem keeps (hguide : (parting.tails .guide).headD .endOfInput = .endOfInput)
    (hbeyond : ¬ parting.beyond) (fuels : Run → Nat) :
    parting.comparison.Keeps fun i => Grammar.scopeWith (fuels i) := by
  refine Comparison.keeps_scopeWith ?_ fuels
  intro fuels rooms cursors hrooms hedge
  apply Comparison.agree_of_lost hedge
  apply Comparison.lost_of_stuck fun _ h => absurd h hbeyond
  apply (Grammar.scopeWith_blocked (fuels .guide)).statement
  have hpeek : (cursors .guide).peek.value = .endOfInput := (hedge .guide).peek.trans hguide
  exact congrArg Token.opensStatement hpeek

end Parting

/-! ## Pieces -/

/-- Whether a run has come to the end of its stream. -/
def Outcome.isWhole {α : Type} : Outcome α → Bool
  | .done _ reached => reached.rest.isEmpty && decide (reached.last.value = .endOfInput)
  | _ => false

theorem Outcome.exists_of_isWhole {α : Type} {outcome : Outcome α} (h : outcome.isWhole = true) :
    ∃ value reached, outcome = .done value reached ∧ reached.Faces [] := by
  cases outcome with
  | done value reached =>
      simp only [isWhole, Bool.and_eq_true, List.isEmpty_iff, decide_eq_true_eq] at h
      refine ⟨value, reached, rfl, ?_, h.2⟩
      rw [h.1, List.map_nil]
  | failed error recovery => cases h
  | unfinished => cases h

namespace Reader

variable {α β : Type} {allows : Trouble → Prop} {cursor : Cursor} {good : α → Cursor → Prop}
  {result : β → Cursor → Prop}

/-- The reader is done at a cursor with something good, or in a trouble that is allowed. -/
def Comes (allows : Trouble → Prop) (read : Reader α) (cursor : Cursor)
    (good : α → Cursor → Prop) : Prop :=
  (∃ value reached, read cursor = .done value reached ∧ good value reached) ∨
    ∃ trouble, (read cursor).trouble? = some trouble ∧ allows trouble

/-- The tokens are read to the last one, with some fuel and some room for nesting. -/
def IsPiece (read : (fuel room : Nat) → Reader α) (word : List Token) : Prop :=
  ∃ fuel room cursor value reached, cursor.Faces word ∧
    read fuel room cursor = .done value reached ∧ reached.Faces []

theorem isPiece_of_isWhole {read : (fuel room : Nat) → Reader α} {word : List Token}
    (fuel room : Nat) (h : (read fuel room (.before word)).isWhole = true) :
    IsPiece read word := by
  obtain ⟨value, reached, hdone, hreached⟩ := Outcome.exists_of_isWhole h
  exact ⟨fuel, room, _, value, reached, Cursor.faces_before word, hdone, hreached⟩

/-- Wherever the tokens stand before an allowed one, with at least some room for nesting, they are
read to the last one, and to something with the given image. -/
def Carries (read : (fuel room : Nat) → Reader α) (next : Token → Prop) (image : α → β)
    (room : Nat) (word : List Token) (tree : β) : Prop :=
  ∀ {fuel more cursor rest}, room ≤ more → cursor.Faces (word ++ rest) →
    next (rest.headD .endOfInput) →
    (read fuel more).Comes (· = .unfinished) cursor fun value reached =>
      reached.Faces rest ∧ image value = tree

end Reader

namespace Parting

/-- A piece before two continuations. -/
def ofPiece (quiet : Prop) (left right : List Token)
    (hleft : left.headD .endOfInput ≠ .keyword .kwElse ∧
      (quiet → (left.headD .endOfInput).isQuiet = true))
    (hright : right.headD .endOfInput ≠ .keyword .kwElse ∧
      (quiet → (right.headD .endOfInput).isQuiet = true)) : Parting where
  tails := Run.pick [] left right
  quiet := quiet
  beyond := False
  guide_halts := .inl ⟨rfl, not_false⟩
  ne_else
    | .guide => nofun
    | .left => hleft.1
    | .right => hright.1
  isQuiet hquiet
    | .guide => rfl
    | .left => hleft.2 hquiet
    | .right => hright.2 hquiet
  beyond_quiet := False.elim
  beyond_blocks := False.elim

end Parting

namespace Grammar

variable {α β : Type} {read : (fuel room : Nat) → Reader α} {next : Token → Prop} {image : α → β}
  {word : List Token}

/-- A reader of pieces: at a parting its runs agree to the end. -/
structure ReadsPieces (read : (fuel room : Nat) → Reader α) (next : Token → Prop) (quiet : Prop)
    (image : α → β) : Prop where
  ne_else {token : Token} : next token → token ≠ .keyword .kwElse
  isQuiet {token : Token} : next token → quiet → token.isQuiet = true
  agree (parting : Parting) (fuels rooms : Run → Nat) {cursors : Run → Cursor} :
    parting.quiet = quiet → parting.comparison.Keeps (fun i => scopeWith (fuels i)) →
    parting.comparison.Rooms rooms → parting.comparison.Together cursors →
    parting.comparison.Agree False cursors (fun i => read (fuels i) (rooms i))
      (parting.comparison.Same image)

/-- Two runs on one piece, of which the left one has no more room for nesting and comes to an end:
the right one does the same, unless it is in want of fuel. -/
theorem ReadsPieces.exchange {quiet : Prop} (hread : ReadsPieces read next quiet image)
    (hword : IsPiece read word) {leftFuel rightFuel leftRoom rightRoom : Nat}
    {left right reached : Cursor} {leftRest rightRest : List Token} {value : α}
    (hrooms : leftRoom ≤ rightRoom) (hleft : left.Faces (word ++ leftRest))
    (hright : right.Faces (word ++ rightRest)) (hleftNext : next (leftRest.headD .endOfInput))
    (hrightNext : next (rightRest.headD .endOfInput))
    (hdone : read leftFuel leftRoom left = .done value reached) :
    (read rightFuel rightRoom right).trouble? = some .unfinished ∨
      ∃ other after, read rightFuel rightRoom right = .done other after ∧
        image other = image value ∧ reached.Faces leftRest ∧ after.Faces rightRest := by
  obtain ⟨aloneFuel, aloneRoom, alone, aloneValue, aloneEnd, halone, hdoneAlone, hend⟩ := hword
  let parting := Parting.ofPiece quiet leftRest rightRest
    ⟨hread.ne_else hleftNext, hread.isQuiet hleftNext⟩
    ⟨hread.ne_else hrightNext, hread.isQuiet hrightNext⟩
  let cursors : Run → Cursor := Run.pick alone left right
  let fuels : Run → Nat := Run.pick aloneFuel leftFuel rightFuel
  let rooms : Run → Nat := Run.pick aloneRoom leftRoom rightRoom
  have hfaces : ∀ i, (cursors i).Faces (word ++ parting.tails i)
    | .guide => by
        rw [show parting.tails .guide = [] from rfl, List.append_nil]
        exact halone
    | .left => hleft
    | .right => hright
  have htogether : parting.comparison.Together cursors := by
    cases word with
    | nil => exact .inr hfaces
    | cons token word => exact .inl (.inl ⟨token, word, hfaces⟩)
  have hkeeps := parting.keeps rfl not_false fuels
  rcases hread.agree parting fuels rooms rfl hkeeps ⟨hrooms, False.elim⟩ htogether with
    hfails | ⟨values, ends, hends, hsame, hreached⟩ | ⟨habsurd, -⟩
  · rcases hfails with ⟨trouble, hguide, -⟩ | hother | hunfinished
    · cases (congrArg Outcome.trouble? hdoneAlone).symm.trans hguide
    · exact absurd (congrArg Outcome.trouble? hdone) hother
    · exact .inl hunfinished
  · have hguide := (hends .guide).symm.trans hdoneAlone
    have hsameLeft := (hends .left).symm.trans hdone
    have hedge : parting.comparison.AtEdge ends := by
      rcases hreached with (⟨token, word, hahead⟩ | ⟨hbeyond, -⟩) | hedge
      · -- the guide is at its end, which is not before the edge
        have haloneEnd : aloneEnd.Faces (token :: word ++ []) :=
          (Outcome.done.inj hguide).2 ▸ hahead .guide
        exact nomatch hend.unique haloneEnd
      · exact hbeyond.elim
      · exact hedge
    cases hsameLeft
    exact .inr ⟨values .right, ends .right, hends .right, (hsame .left .right ⟨rfl, rfl⟩).symm,
      hedge .left, hedge .right⟩
  · exact habsurd.elim

/-- A piece that is read at one place, with some room, is read at every place with as much room. -/
theorem ReadsPieces.comes {quiet : Prop} (hread : ReadsPieces read next quiet image)
    (hword : IsPiece read word) {fuel less room : Nat} {cursor : Cursor} {rest : List Token}
    (hless : less ≤ room) (hcursor : cursor.Faces (word ++ rest))
    (hnext : next (rest.headD .endOfInput)) :
    (read fuel less).Comes (fun _ => True) cursor fun value reached =>
      reached.Faces rest ∧ Carries read next image room word (image value) := by
  cases hdone : read fuel less cursor with
  | failed error recovery =>
      refine .inr ⟨.failed error.value, ?_, trivial⟩
      rw [hdone]
      rfl
  | unfinished =>
      refine .inr ⟨.unfinished, ?_, trivial⟩
      rw [hdone]
      rfl
  | done value reached =>
      refine .inl ⟨value, reached, hdone, ?_, ?_⟩
      · -- compared with itself, the run stops where the piece does
        rcases hread.exchange hword (Nat.le_refl less) hcursor hcursor hnext hnext hdone with
          hunfinished | ⟨_, _, _, _, hreached, _⟩
        · rw [hdone] at hunfinished
          cases hunfinished
        · exact hreached
      · intro otherFuel more other behind hmore hother hbehind
        have hrooms := hless.trans hmore
        rcases hread.exchange hword hrooms hcursor hother hnext hbehind hdone with
          hunfinished | ⟨otherValue, after, hotherDone, himage, -, hafter⟩
        · exact .inr ⟨.unfinished, hunfinished, rfl⟩
        · exact .inl ⟨otherValue, after, hotherDone, hafter, himage⟩

/-- Tokens behind a piece that is an expression. -/
theorem endsExpr_quiet {token : Token} (h : token.endsExpr = true) :
    token ≠ .keyword .kwElse ∧ token.isQuiet = true := by
  unfold Token.endsExpr at h
  split at h
  · exact ⟨nofun, rfl⟩
  · exact ⟨nofun, rfl⟩
  · exact ⟨nofun, rfl⟩
  · cases h

theorem readsPieces_expression :
    ReadsPieces expressionWith (·.endsExpr = true) True Expr.unplaced where
  ne_else h := (endsExpr_quiet h).1
  isQuiet h _ := (endsExpr_quiet h).2
  agree parting fuels rooms _ hquiet hkeeps hrooms hcursors := by
    refine (hkeeps.expression hrooms hcursors).imp ?_ fun _ hvalues => hvalues.tree
    intro hloud
    exact hloud (of_eq_true hquiet)

theorem readsPieces_statement :
    ReadsPieces statementWith (· ≠ .keyword .kwElse) False Stmt.unplaced where
  ne_else h := h
  isQuiet _ := False.elim
  agree _ _ _ _ _ hkeeps hrooms hcursors := hkeeps.statement hrooms hcursors

end Grammar

end Stacklet
