import Stacklet.Proofs.Tree.Places
import Stacklet.Proofs.Tree.Refusals

/-! # Runs in lockstep

Several runs of one reader are compared, on streams that agree as far as it matters. As long as the
same token is ahead of all of them they do the same. Streams may part, at an edge; there one of the
runs is the guide, and the token ahead of it lets it go on in few ways only. Either the comparison
fails, because of the troubles that some of the runs are in, or all runs are done at the same place
with values that are compared.
-/

namespace Stacklet

/-- Tokens with which no expression goes on. -/
def Token.isQuiet (token : Token) : Bool :=
  token ≠ .symbol .openParen && token ≠ .symbol .assign &&
    Grammar.Level.all.all fun level => (level.operator? token).isNone

/-- Tokens that neither begin an expression or a declaration nor stand behind an expression. -/
def Token.isBlocking (token : Token) : Bool :=
  !token.opensExpr && !token.endsExpr && !token.opensDeclaration

/-- Tokens that are ahead of the guide where streams part. -/
def Token.isHalt : Token → Bool
  | .endOfInput | .keyword .kwPrint => true
  | _ => false

theorem Token.opensExpr_of_isBlocking {token : Token} (h : token.isBlocking = true) :
    token.opensExpr = false := by
  simp only [Token.isBlocking, Bool.and_eq_true, Bool.not_eq_true'] at h
  exact h.1.1

/-- Runs that are compared. -/
structure Comparison (ι : Type) where
  /-- The run that shows the way at an edge. -/
  guide : ι
  /-- Runs whose trees are to be the same, up to places. -/
  Compared : ι → ι → Prop
  /-- The same token is ahead of all runs. -/
  InStep : (ι → Cursor) → Prop
  /-- The streams part here. -/
  AtEdge : (ι → Cursor) → Prop
  /-- Room for nesting that the runs may have. -/
  Rooms : (ι → Nat) → Prop
  /-- Troubles with which there is nothing left to compare. -/
  Fails : (ι → Option Trouble) → Prop
  /-- Runs that do not go on with an expression at an edge. -/
  Blocks : ι → Prop
  /-- Troubles of the guide that count. -/
  Counts : Trouble → Prop
  /-- Streams may part, so that the guide matters. -/
  IsGuided : Prop
  /-- At edges no run goes on with an expression. -/
  IsQuiet : Prop
  peek_eq : ∀ {cursors}, InStep cursors → ∀ i j, (cursors i).peek.value = (cursors j).peek.value
  advance : ∀ {cursors}, InStep cursors → (cursors guide).peek.value ≠ .endOfInput →
    InStep (fun i => (cursors i).advance) ∨ AtEdge fun i => (cursors i).advance
  rooms : ∀ {rooms}, Rooms rooms →
    (∃ inner, Rooms inner ∧ rooms = fun i => inner i + 1) ∨
      ∀ troubles, (∀ i, rooms i = 0 → troubles i = some (.failed .tooDeep)) → Fails troubles
  fails_mono : ∀ {troubles more}, Fails troubles →
    (∀ i, troubles i ≠ none → more i = troubles i) → Fails more
  fails_unfinished : ∀ {troubles} i, troubles i = some .unfinished → Fails troubles
  fails_failed : ∀ {troubles} error, (∀ i, troubles i = some (.failed error)) → Fails troubles
  fails_guided : ∀ {troubles trouble}, IsGuided → Counts trouble →
    troubles guide = some trouble → Fails troubles
  fails_blocked : ∀ {troubles}, IsGuided → (∀ i, Blocks i → troubles i ≠ none) → Fails troubles
  counts_refusal : ∀ {trouble}, trouble.isRefusal = true → Counts trouble
  counts_loud : ∀ {trouble}, ¬ IsQuiet → Counts trouble
  edge_guided : ∀ {cursors}, AtEdge cursors → IsGuided
  edge_blocks : ∀ {cursors i}, Blocks i → AtEdge cursors →
    (cursors i).peek.value.isBlocking = true
  edge_guide : ∀ {cursors}, AtEdge cursors →
    ((cursors guide).peek.value = .endOfInput ∧ ∀ trouble, Counts trouble) ∨
    (cursors guide).peek.value = .keyword .kwPrint ∧
      ∀ i, (cursors i).peek.value.opensStatement = true ∧
        (cursors i).peek.value.opensDeclaration = false
  edge_else : ∀ {cursors}, AtEdge cursors → ∀ i, (cursors i).peek.value ≠ .keyword .kwElse
  edge_quiet : ∀ {cursors}, IsQuiet → AtEdge cursors → ∀ i, (cursors i).peek.value.isQuiet = true

namespace Comparison

open Reader

variable {ι α β γ : Type} (comparison : Comparison ι)

/-- The runs are where they can be compared. -/
def Together (cursors : ι → Cursor) : Prop :=
  comparison.InStep cursors ∨ comparison.AtEdge cursors

/-- The runs of a reader fail, or all are done with some values. Where the guide may be early, it
may also be done alone, at an edge that the others go beyond. -/
def Agree (early : Prop) (cursors : ι → Cursor) (read : ι → Reader α) (good : (ι → α) → Prop) :
    Prop :=
  comparison.Fails (fun i => (read i (cursors i)).trouble?) ∨
    (∃ values reached, (∀ i, read i (cursors i) = .done (values i) (reached i)) ∧ good values ∧
      comparison.Together reached) ∨
    early ∧ comparison.IsGuided ∧
      ∃ value reached, read comparison.guide (cursors comparison.guide) = .done value reached ∧
        reached.peek.value.isHalt = true

/-- The stream of the guide may end where the streams part. -/
def EndsAtEdge : Prop :=
  ∃ cursors, comparison.AtEdge cursors ∧
    (cursors comparison.guide).peek.value = .endOfInput

/-- Values of the runs that are compared have the same image. -/
def Same (image : α → β) (values : ι → α) : Prop :=
  ∀ i j, comparison.Compared i j → image (values i) = image (values j)

variable {comparison} {early before : Prop} {cursors reached : ι → Cursor}
  {good : (ι → α) → Prop} {result : (ι → β) → Prop}

theorem AtEdge.isHalt (h : comparison.AtEdge cursors) :
    (cursors comparison.guide).peek.value.isHalt = true := by
  rcases comparison.edge_guide h with ⟨hpeek, -⟩ | ⟨hpeek, -⟩
  · rw [hpeek]
    rfl
  · rw [hpeek]
    rfl

/-- Counts of fuel, one for each run: either one of them is used up or all can be counted down. -/
@[elab_as_elim]
theorem fuels_induction (comparison : Comparison ι) {motive : (ι → Nat) → Prop}
    (zero : ∀ fuels i, fuels i = 0 → motive fuels)
    (succ : ∀ fuels, motive fuels → motive fun i => fuels i + 1) (fuels : ι → Nat) :
    motive fuels := by
  induction hfuel : fuels comparison.guide generalizing fuels with
  | zero => exact zero fuels comparison.guide hfuel
  | succ fuel ih =>
      by_cases hzero : ∃ i, fuels i = 0
      · obtain ⟨i, hi⟩ := hzero
        exact zero fuels i hi
      · have hpred : fuels = fun i => (fuels i - 1) + 1 := by
          funext i
          have hi : fuels i ≠ 0 := fun hi => hzero ⟨i, hi⟩
          omega
        rw [hpred]
        apply succ
        apply ih
        rw [hfuel]
        rfl

/-! ## Troubles -/

/-- The guide is in a trouble that counts. -/
def Lost (comparison : Comparison ι) (read : Reader α) (cursor : Cursor) : Prop :=
  ∃ trouble, (read cursor).trouble? = some trouble ∧ comparison.Counts trouble

theorem lost_of_refuses {read : Reader α} {cursor : Cursor} (h : Refuses read cursor) :
    comparison.Lost read cursor := by
  obtain ⟨trouble, htrouble, hrefusal⟩ := h
  exact ⟨trouble, htrouble, comparison.counts_refusal hrefusal⟩

/-- Where all troubles count the guide is lost when it is stuck. -/
theorem lost_of_stuck {read : Reader α} {cursor : Cursor}
    (hcounts : ∀ trouble, comparison.Counts trouble) (h : Stuck read cursor) :
    comparison.Lost read cursor := by
  obtain ⟨trouble, htrouble⟩ := Option.ne_none_iff_exists'.mp h
  exact ⟨trouble, htrouble, hcounts trouble⟩

theorem agree_of_lost {read : ι → Reader α} (hedge : comparison.AtEdge cursors)
    (h : comparison.Lost (read comparison.guide) (cursors comparison.guide)) :
    comparison.Agree early cursors read good := by
  obtain ⟨trouble, htrouble, hcounts⟩ := h
  exact .inl (comparison.fails_guided (comparison.edge_guided hedge) hcounts htrouble)

/-- Where an expression is asked for at an edge the comparison fails. -/
theorem agree_of_blocked {read : ι → Reader α} (hedge : comparison.AtEdge cursors)
    (h : ∀ i, (cursors i).peek.value.isBlocking = true → Stuck (read i) (cursors i)) :
    comparison.Agree early cursors read good := by
  apply Or.inl
  apply comparison.fails_blocked (comparison.edge_guided hedge)
  exact fun i hi => h i (comparison.edge_blocks hi hedge)

theorem agree_unfinished {read : ι → Reader α} (i : ι)
    (h : read i (cursors i) = .unfinished) : comparison.Agree early cursors read good := by
  apply Or.inl
  apply comparison.fails_unfinished i
  rw [h]
  rfl

theorem agree_failed {read : ι → Reader α} (error : SyntaxError)
    (h : ∀ i, (read i (cursors i)).trouble? = some (.failed error)) :
    comparison.Agree early cursors read good :=
  .inl (comparison.fails_failed error h)

/-! ## Readers in a row -/

theorem agree_pure {values : ι → α} (hcursors : comparison.Together cursors) (h : good values) :
    comparison.Agree early cursors (fun i => pure (values i)) good :=
  .inr (.inl ⟨values, cursors, fun _ => rfl, h, hcursors⟩)

theorem Agree.congr {read same : ι → Reader α} (h : comparison.Agree early reached read good)
    (heq : ∀ i, same i (cursors i) = read i (reached i)) :
    comparison.Agree early cursors same good := by
  unfold Agree
  simp only [heq]
  exact h

theorem Agree.imp {read : ι → Reader α} {better : (ι → α) → Prop}
    (h : comparison.Agree before cursors read good) (hearly : before → early)
    (himp : ∀ values, good values → better values) :
    comparison.Agree early cursors read better := by
  rcases h with hfails | ⟨values, reached, hdone, hgood, hreached⟩ | ⟨hbefore, halone⟩
  · exact .inl hfails
  · exact .inr (.inl ⟨values, reached, hdone, himp values hgood, hreached⟩)
  · exact .inr (.inr ⟨hearly hbefore, halone⟩)

theorem Agree.whenever {read : ι → Reader α} (h : comparison.Agree False cursors read good) :
    comparison.Agree early cursors read good :=
  h.imp False.elim fun _ hgood => hgood

theorem fails_bind {first : ι → Reader α} {next : ι → α → Reader β}
    (h : comparison.Fails fun i => (first i (cursors i)).trouble?) :
    comparison.Fails fun i => ((first i >>= next i) (cursors i)).trouble? :=
  comparison.fails_mono h fun _ hne => trouble?_bind hne

theorem agree_bind_of_done {first : ι → Reader α} {next : ι → α → Reader β} {values : ι → α}
    (hdone : ∀ i, first i (cursors i) = .done (values i) (reached i))
    (h : comparison.Agree early reached (fun i => next i (values i)) result) :
    comparison.Agree early cursors (fun i => first i >>= next i) result :=
  h.congr fun i => bind_of_done (hdone i)

/-- Runs that agree on one reader after the other agree on both in a row. Where the guide is early,
it has to be lost with the second reader or to stop there as well. -/
theorem Agree.bind {first : ι → Reader α} {next : ι → α → Reader β}
    (h : comparison.Agree before cursors first good)
    (hnext : ∀ values reached, good values → comparison.Together reached →
      comparison.Agree early reached (fun i => next i (values i)) result)
    (hearly : before → ∀ value reached, reached.peek.value.isHalt = true →
      comparison.Lost (next comparison.guide value) reached ∨
        early ∧ ∃ final, next comparison.guide value reached = .done final reached) :
    comparison.Agree early cursors (fun i => first i >>= next i) result := by
  rcases h with hfails | ⟨values, reached, hdone, hgood, hreached⟩ |
    ⟨hbefore, hguided, value, reached, hdone, hpeek⟩
  · exact .inl (fails_bind hfails)
  · exact agree_bind_of_done hdone (hnext values reached hgood hreached)
  · have hguide : ∀ {outcome}, next comparison.guide value reached = outcome →
        (first comparison.guide >>= next comparison.guide) (cursors comparison.guide) = outcome :=
      fun houtcome => (bind_of_done hdone).trans houtcome
    rcases hearly hbefore value reached hpeek with ⟨trouble, htrouble, hcounts⟩ |
      ⟨hearly, final, hfinal⟩
    · apply Or.inl
      apply comparison.fails_guided hguided hcounts
      rw [← htrouble]
      exact congrArg Outcome.trouble? (hguide rfl)
    · exact .inr (.inr ⟨hearly, hguided, final, reached, hguide hfinal, hpeek⟩)

theorem Agree.map {read : ι → Reader α} {f : α → β} (h : comparison.Agree early cursors read good)
    (hgood : ∀ values, good values → result fun i => f (values i)) :
    comparison.Agree early cursors (fun i => f <$> read i) result :=
  h.bind (fun values _ hvalues hreached => agree_pure hreached (hgood values hvalues))
    fun hearly value _ _ => .inr ⟨hearly, f value, rfl⟩

/-- At an edge, expressions that end before quiet tokens end together or with the guide. -/
theorem agree_edge {read : ι → Reader α} {values : ι → α} (hedge : comparison.AtEdge cursors)
    (h : good values)
    (hread : ∀ i, (cursors i).peek.value.isQuiet = true →
      read i (cursors i) = .done (values i) (cursors i)) :
    comparison.Agree (¬ comparison.IsQuiet) cursors read good := by
  by_cases hquiet : comparison.IsQuiet
  · exact .inr (.inl ⟨values, cursors, fun i => hread i (comparison.edge_quiet hquiet hedge i), h,
      .inr hedge⟩)
  · have hhalt := AtEdge.isHalt hedge
    have hguide : (cursors comparison.guide).peek.value.isQuiet = true := by
      rcases comparison.edge_guide hedge with ⟨hpeek, -⟩ | ⟨hpeek, -⟩ <;> rw [hpeek] <;> rfl
    exact .inr (.inr ⟨hquiet, comparison.edge_guided hedge, _, _, hread _ hguide, hhalt⟩)

/-! ## Single tokens -/

theorem agree_peek {next : ι → Token → Reader β} (hcursors : comparison.InStep cursors)
    (h : comparison.Agree early cursors
      (fun i => next i (cursors comparison.guide).peek.value) result) :
    comparison.Agree early cursors (fun i => peek >>= next i) result := by
  apply h.congr
  intro i
  rw [peek_bind, comparison.peek_eq hcursors i comparison.guide]

theorem agree_previousSpan {next : ι → Span → Reader β}
    (h : ∀ spans : ι → Span, comparison.Agree early cursors (fun i => next i (spans i)) result) :
    comparison.Agree early cursors (fun i => previousSpan >>= next i) result :=
  agree_bind_of_done (fun _ => rfl) (h _)

theorem agree_next {next : ι → Located Token → Reader β} (hcursors : comparison.InStep cursors)
    (hpeek : (cursors comparison.guide).peek.value ≠ .endOfInput)
    (h : ∀ (tokens : ι → Located Token) (reached : ι → Cursor), comparison.Together reached →
      comparison.Agree early reached (fun i => next i (tokens i)) result) :
    comparison.Agree early cursors (fun i => Reader.next >>= next i) result :=
  agree_bind_of_done (fun _ => rfl) (h _ _ (comparison.advance hcursors hpeek))

theorem agree_isAhead {token : Token} {next : ι → Bool → Reader β}
    (hcursors : comparison.InStep cursors)
    (h : ∀ ahead, comparison.Agree early cursors (fun i => next i ahead) result) :
    comparison.Agree early cursors (fun i => isAhead token >>= next i) result := by
  apply agree_bind_of_done ?_ (h ((cursors comparison.guide).peek.value = token))
  intro i
  rw [isAhead, comparison.peek_eq hcursors i comparison.guide]

theorem agree_eat {token : Token} {next : ι → Bool → Reader β} (hne : token ≠ .endOfInput)
    (hcursors : comparison.InStep cursors)
    (heaten : ∀ reached, comparison.Together reached →
      comparison.Agree early reached (fun i => next i true) result)
    (hother : comparison.Agree early cursors (fun i => next i false) result) :
    comparison.Agree early cursors (fun i => eat token >>= next i) result := by
  have hsame := fun i => comparison.peek_eq hcursors i comparison.guide
  by_cases hpeek : (cursors comparison.guide).peek.value = token
  · apply agree_bind_of_done ?_ (heaten _ (comparison.advance hcursors (hpeek ▸ hne)))
    exact fun i => eat_of_eq ((hsame i).trans hpeek)
  · apply agree_bind_of_done ?_ hother
    exact fun i => eat_of_ne (hsame i ▸ hpeek)

theorem agree_expectSymbol {symbol : Symbol} {expected : String}
    {next : ι → Located Token → Reader β} (hcursors : comparison.Together cursors)
    (h : ∀ (tokens : ι → Located Token) (reached : ι → Cursor), comparison.Together reached →
      comparison.Agree early reached (fun i => next i (tokens i)) result) :
    comparison.Agree early cursors (fun i => expectSymbol symbol expected >>= next i) result := by
  rcases hcursors with hstep | hedge
  · have hsame := fun i => comparison.peek_eq hstep i comparison.guide
    by_cases hpeek : (cursors comparison.guide).peek.value = .symbol symbol
    · have hreached := comparison.advance hstep (hpeek ▸ nofun)
      apply agree_bind_of_done ?_ (h (fun i => (cursors i).peek) _ hreached)
      exact fun i => if_pos ((hsame i).trans hpeek)
    · apply agree_failed (.unexpectedToken expected (cursors comparison.guide).peek.value)
      intro i
      have hfailed : expectSymbol symbol expected (cursors i) = unexpected expected (cursors i) :=
        if_neg (hsame i ▸ hpeek)
      rw [bind_apply, hfailed, ← hsame i]
      rfl
  · apply agree_of_lost hedge
    apply lost_of_refuses
    exact refuses_expectSymbol (Token.ne_of_class (AtEdge.isHalt hedge) rfl)

/-- A symbol behind something keeps the guide from being early. -/
theorem Agree.expectSymbol {first : ι → Reader α} {symbol : Symbol} {expected : String}
    {next : ι → α → Located Token → Reader β} (h : comparison.Agree before cursors first good)
    (hnext : ∀ (values : ι → α) (tokens : ι → Located Token) (reached : ι → Cursor), good values →
      comparison.Together reached →
      comparison.Agree early reached (fun i => next i (values i) (tokens i)) result) :
    comparison.Agree early cursors
      (fun i => first i >>= fun value => expectSymbol symbol expected >>= next i value) result := by
  refine h.bind (fun values reached hvalues hreached => ?_) ?_
  · exact agree_expectSymbol hreached fun tokens later hlater =>
      hnext values tokens later hvalues hlater
  · intro _ value reached hhalt
    apply Or.inl
    apply lost_of_refuses
    exact refuses_expectSymbol (Token.ne_of_class hhalt rfl)

theorem agree_expectName {expected : String} (hcursors : comparison.Together cursors) :
    comparison.Agree False cursors (fun _ => expectName expected)
      (comparison.Same Located.unplaced) := by
  rcases hcursors with hstep | hedge
  · have hsame := fun i => comparison.peek_eq hstep i comparison.guide
    cases hpeek : (cursors comparison.guide).peek.value with
    | name text =>
        have hreached := comparison.advance hstep (hpeek ▸ nofun)
        refine .inr (.inl ⟨fun i => ⟨text, (cursors i).peek.span⟩, _, fun i => ?_, ?_, hreached⟩)
        · simp only [expectName, (hsame i).trans hpeek]
        · exact fun _ _ _ => rfl
    | _ =>
        apply agree_failed (.unexpectedToken expected (cursors comparison.guide).peek.value)
        intro i
        have hfound := (hsame i).trans hpeek
        simp only [expectName, hfound, unexpected, hpeek]
        rfl
  · apply agree_of_lost hedge
    apply lost_of_refuses
    exact refuses_expectName fun _ => Token.ne_of_class (AtEdge.isHalt hedge) rfl

/-! ## Nesting and recovery -/

theorem agree_nested {read : ι → Nat → Reader α} {rooms : ι → Nat}
    (hrooms : comparison.Rooms rooms)
    (h : ∀ inner, comparison.Rooms inner →
      comparison.Agree early cursors (fun i => read i (inner i)) good) :
    comparison.Agree early cursors (fun i => nested (read i) (rooms i)) good := by
  rcases comparison.rooms hrooms with ⟨inner, hinner, rfl⟩ | hdeep
  · exact h inner hinner
  · apply Or.inl
    apply hdeep
    intro i hi
    simp only [hi]
    rfl

theorem Agree.recovering {read : ι → Reader α} (h : comparison.Agree early cursors read good) :
    comparison.Agree early cursors (fun i => recovering (read i)) good := by
  have hdone : ∀ {i value cursor}, read i (cursors i) = .done value cursor →
      Reader.recovering (read i) (cursors i) = .done value cursor := by
    intro i value cursor hread
    rw [Reader.recovering, hread]
  rcases h with hfails | ⟨values, reached, hread, hgood, hreached⟩ |
    ⟨hearly, hguided, value, reached, hread, hpeek⟩
  · apply Or.inl
    simp only [trouble?_recovering]
    exact hfails
  · exact .inr (.inl ⟨values, reached, fun i => hdone (hread i), hgood, hreached⟩)
  · exact .inr (.inr ⟨hearly, hguided, value, reached, hdone hread, hpeek⟩)

/-! ## Lists -/

/-- A stop that depends on the token ahead, and is made before the end of input but not before a
statement. -/
structure IsStop (stop : Cursor → Bool) : Prop where
  congr {left right : Cursor} : left.peek.value = right.peek.value → stop left = stop right
  at_end {cursor : Cursor} : cursor.peek.value = .endOfInput → stop cursor = true
  not_opens {cursor : Cursor} : cursor.peek.value.opensStatement = true → ¬ stop cursor = true

theorem isStop_atEnd : IsStop Cursor.atEnd where
  congr h := by simp only [Cursor.atEnd, h]
  at_end h := by simp only [Cursor.atEnd, h, decide_true]
  not_opens h hend := by
    simp only [Cursor.atEnd, decide_eq_true_eq] at hend
    rw [hend] at h
    cases h

theorem isStop_atBlockEnd : IsStop Grammar.atBlockEnd where
  congr h := by simp only [Grammar.atBlockEnd, Cursor.atEnd, h]
  at_end h := by simp only [Grammar.atBlockEnd, Cursor.atEnd, h, decide_true, Bool.or_true]
  not_opens h hend := by
    simp only [Grammar.atBlockEnd, Cursor.atEnd, Bool.or_eq_true, decide_eq_true_eq] at hend
    rcases hend with hpeek | hpeek <;> rw [hpeek] at h <;> cases h

theorem Same.cons {image : α → β} {values : ι → α} {read : ι → List α}
    (hvalues : comparison.Same image values) (hread : comparison.Same (List.map image) read) :
    comparison.Same (List.map image) fun i => values i :: read i := by
  intro i j hij
  rw [List.map_cons, List.map_cons, hvalues i j hij, hread i j hij]

theorem Same.reverse {image : α → β} {read : ι → List α}
    (hread : comparison.Same (List.map image) read) :
    comparison.Same (List.map image) fun i => (read i).reverse := by
  intro i j hij
  rw [List.map_reverse, List.map_reverse, hread i j hij]

/-- Items up to a stop. At an edge before the end of its stream the guide is done with them. -/
theorem agree_collect {stop : Cursor → Bool} (hstop : IsStop stop) {item : ι → Reader α}
    {image : α → β} (hitem : ∀ {cursors}, comparison.Together cursors →
      comparison.Agree False cursors item (comparison.Same image))
    (hcursors : comparison.Together cursors) (fuels : ι → Nat) (read : ι → List α)
    (hread : comparison.Same (List.map image) read) :
    comparison.Agree comparison.EndsAtEdge cursors
      (fun i => collect stop (item i) (fuels i) (read i)) (comparison.Same (List.map image)) := by
  induction fuels using comparison.fuels_induction generalizing cursors read with
  | zero fuels i hi =>
      apply agree_unfinished i
      rw [hi]
      rfl
  | succ fuels ih =>
      have hmore : (∀ i, ¬ stop (cursors i) = true) → comparison.Agree comparison.EndsAtEdge
          cursors (fun i => collect stop (item i) (fuels i + 1) (read i))
          (comparison.Same (List.map image)) := by
        intro hgo
        refine Agree.congr ?_ fun i => collect_of_not_stop (item i) (fuels i) (read i) (hgo i)
        refine (hitem hcursors).bind (fun values reached hvalues hreached => ?_) False.elim
        exact ih hreached _ (hvalues.cons hread)
      rcases hcursors with hstep | hedge
      · have hsame := fun i => hstop.congr (comparison.peek_eq hstep i comparison.guide)
        by_cases hguide : stop (cursors comparison.guide) = true
        · refine Agree.congr (agree_pure (.inl hstep) hread.reverse) fun i => ?_
          exact collect_of_stop (item i) (fuels i) (read i) ((hsame i).trans hguide)
        · exact hmore fun i hi => hguide ((hsame i).symm.trans hi)
      · rcases comparison.edge_guide hedge with ⟨hpeek, -⟩ | ⟨-, hopens⟩
        · exact .inr (.inr ⟨⟨cursors, hedge, hpeek⟩, comparison.edge_guided hedge, _, _,
            collect_of_stop _ _ _ (hstop.at_end hpeek), AtEdge.isHalt hedge⟩)
        · exact hmore fun i => hstop.not_opens (hopens i).1

/-- Items with commas between them. Where streams part the guide is done with them. -/
theorem agree_separated {listing : Listing} {item : ι → Reader α} {image : α → β}
    (hitem : ∀ {cursors}, comparison.Together cursors →
      comparison.Agree before cursors item (comparison.Same image))
    (hcursors : comparison.Together cursors) (fuels : ι → Nat) (read : ι → List α)
    (hlength : ∀ i j, (read i).length = (read j).length)
    (hread : comparison.Same (List.map image) read) :
    comparison.Agree True cursors
      (fun i => separated listing (item i) (fuels i) (read i))
      (comparison.Same (List.map image)) := by
  induction fuels using comparison.fuels_induction generalizing cursors read with
  | zero fuels i hi =>
      apply agree_unfinished i
      rw [hi]
      rfl
  | succ fuels ih =>
      simp only [separated, fun i => hlength i comparison.guide]
      by_cases hmany : maxListed ≤ (read comparison.guide).length
      · simp only [if_pos hmany]
        exact agree_failed (.tooMany listing) fun _ => rfl
      · simp only [if_neg hmany]
        have hdone : ∀ (value : α) (reached : Cursor), reached.peek.value.isHalt = true →
            ∀ more : Reader (List α), ∀ values,
            (eat (.symbol .comma) >>= fun comma => if comma = true then more else pure values)
              reached = .done values reached := by
          intro value reached hhalt more values
          rw [bind_of_done (eat_of_ne (Token.ne_of_class hhalt rfl))]
          rfl
        refine (hitem hcursors).bind (fun values reached hvalues hreached => ?_) ?_
        · have hcons := hvalues.cons hread
          rcases hreached with hstep | hedge
          · refine agree_eat (by decide) hstep (fun later hlater => ?_) ?_
            · exact ih hlater _ (fun i j => congrArg (· + 1) (hlength i j)) hcons
            · exact agree_pure (.inl hstep) hcons.reverse
          · have hhalt := AtEdge.isHalt hedge
            exact .inr (.inr ⟨trivial, comparison.edge_guided hedge, _, _,
              hdone (values comparison.guide) _ hhalt _ _, hhalt⟩)
        · exact fun _ value reached hhalt => .inr ⟨trivial, _, hdone value _ hhalt _ _⟩

end Comparison

end Stacklet
