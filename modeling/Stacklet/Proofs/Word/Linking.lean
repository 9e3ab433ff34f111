import Stacklet.Proofs.Word.Nesting

/-! # Linking of nested blocks

Linking succeeds on exactly the words that are balanced, and gives every opener the place behind the
word that closes its arm. The pass over the words that looks for faults and the pass that collects
the closers are each followed along a nesting, whatever is open around it.
-/

namespace Stacklet

variable {τ : Type}

/-- Words in which every block is closed. -/
def Balanced (words : List (Instruction Unit)) : Prop :=
  ∃ nesting : Nesting, nesting.words = words

namespace Instruction

theorem eq_instruction_of_word {instruction : Instruction τ} {basic : Basic}
    (h : instruction.word = basic.instruction) : instruction = basic.instruction := by
  cases instruction <;> cases basic <;> cases h <;> rfl

theorem exists_cond_of_word {instruction : Instruction τ} (h : instruction.word = .cond ()) :
    ∃ target, instruction = .cond target := by
  cases instruction <;> first | exact ⟨_, rfl⟩ | exact nomatch h

theorem exists_alt_of_word {instruction : Instruction τ} (h : instruction.word = .alt ()) :
    ∃ target, instruction = .alt target := by
  cases instruction <;> first | exact ⟨_, rfl⟩ | exact nomatch h

theorem eq_close_of_word {instruction : Instruction τ} (h : instruction.word = .close) :
    instruction = .close := by
  cases instruction <;> first | rfl | exact nomatch h

end Instruction

namespace Blocks

/-- The words of instructions. -/
def wordsOf (instructions : List (Located (Instruction τ))) : List (Instruction Unit) :=
  instructions.map (·.value.word)

theorem exists_of_wordsOf_basic {front : List (Located (Instruction τ))} {word : Basic}
    {rest : Nesting} (h : wordsOf front = (Nesting.basic word rest).words) :
    ∃ span tail, front = ⟨word.instruction, span⟩ :: tail ∧ wordsOf tail = rest.words := by
  obtain ⟨⟨instruction, span⟩, tail, rfl, hword, hrest⟩ := List.map_eq_cons_iff.mp h
  obtain rfl := Instruction.eq_instruction_of_word hword
  exact ⟨span, tail, rfl, hrest⟩

theorem exists_of_wordsOf_ifEnd {front : List (Located (Instruction τ))} {thenPart rest : Nesting}
    (h : wordsOf front = (Nesting.ifEnd thenPart rest).words) :
    ∃ target span thenFront closer tail,
      front = ⟨.cond target, span⟩ :: (thenFront ++ ⟨.close, closer⟩ :: tail) ∧
      wordsOf thenFront = thenPart.words ∧ wordsOf tail = rest.words := by
  obtain ⟨⟨opener, span⟩, front, rfl, hopener, hfront⟩ := List.map_eq_cons_iff.mp h
  obtain ⟨thenFront, front, rfl, hthen, hfront⟩ := List.map_eq_append_iff.mp hfront
  obtain ⟨⟨closer, closerSpan⟩, tail, rfl, hcloser, hrest⟩ := List.map_eq_cons_iff.mp hfront
  obtain ⟨target, rfl⟩ := Instruction.exists_cond_of_word hopener
  obtain rfl := Instruction.eq_close_of_word hcloser
  exact ⟨target, span, thenFront, closerSpan, tail, rfl, hthen, hrest⟩

theorem exists_of_wordsOf_ifElse {front : List (Located (Instruction τ))}
    {thenPart elsePart rest : Nesting}
    (h : wordsOf front = (Nesting.ifElse thenPart elsePart rest).words) :
    ∃ target span thenFront exit middle elseFront closer tail,
      front = ⟨.cond target, span⟩ :: (thenFront ++ ⟨.alt exit, middle⟩ ::
        (elseFront ++ ⟨.close, closer⟩ :: tail)) ∧
      wordsOf thenFront = thenPart.words ∧ wordsOf elseFront = elsePart.words ∧
      wordsOf tail = rest.words := by
  obtain ⟨⟨opener, span⟩, front, rfl, hopener, hfront⟩ := List.map_eq_cons_iff.mp h
  obtain ⟨thenFront, front, rfl, hthen, hfront⟩ := List.map_eq_append_iff.mp hfront
  obtain ⟨⟨middle, middleSpan⟩, front, rfl, hmiddle, hfront⟩ := List.map_eq_cons_iff.mp hfront
  obtain ⟨elseFront, front, rfl, helse, hfront⟩ := List.map_eq_append_iff.mp hfront
  obtain ⟨⟨closer, closerSpan⟩, tail, rfl, hcloser, hrest⟩ := List.map_eq_cons_iff.mp hfront
  obtain ⟨target, rfl⟩ := Instruction.exists_cond_of_word hopener
  obtain ⟨exit, rfl⟩ := Instruction.exists_alt_of_word hmiddle
  obtain rfl := Instruction.eq_close_of_word hcloser
  exact ⟨target, span, thenFront, exit, middleSpan, elseFront, closerSpan, tail, rfl, hthen, helse,
    hrest⟩

/-! ## Faults -/

theorem fault?_basic (opened : List (Located Arm)) (basic : Basic) (span : Span)
    (rest : List (Located (Instruction τ))) :
    fault? opened (⟨basic.instruction, span⟩ :: rest) = fault? opened rest := by
  cases basic <;> rfl

/-- A nesting has no fault and leaves the blocks around it as they are. -/
theorem fault?_append {front : List (Located (Instruction τ))} {nesting : Nesting}
    (h : wordsOf front = nesting.words) (back : List (Located (Instruction τ)))
    (opened : List (Located Arm)) : fault? opened (front ++ back) = fault? opened back := by
  induction nesting generalizing front back opened with
  | done =>
      obtain rfl := List.map_eq_nil_iff.mp h
      rfl
  | basic word rest ih =>
      obtain ⟨span, tail, rfl, hrest⟩ := exists_of_wordsOf_basic h
      rw [List.cons_append, fault?_basic]
      exact ih hrest back opened
  | ifEnd thenPart rest ihThen ih =>
      obtain ⟨target, span, thenFront, closer, tail, rfl, hthen, hrest⟩ := exists_of_wordsOf_ifEnd h
      -- The opener opens an arm, and the closer finds just that arm open again.
      simp only [List.cons_append, List.append_assoc, fault?]
      rw [ihThen hthen, fault?, ih hrest]
  | ifElse thenPart elsePart rest ihThen ihElse ih =>
      obtain ⟨target, span, thenFront, exit, middle, elseFront, closer, tail, rfl, hthen, helse,
        hrest⟩ := exists_of_wordsOf_ifElse h
      simp only [List.cons_append, List.append_assoc, fault?]
      rw [ihThen hthen, fault?, ihElse helse, fault?, ih hrest]

/-- Words that close the given open arms, innermost first, and are balanced between. -/
inductive Closes : List Arm → List (Instruction Unit) → Prop
  | balanced (nesting : Nesting) : Closes [] nesting.words
  | close (inner : Nesting) {arm : Arm} {outer : List Arm} {rest : List (Instruction Unit)}
      (h : Closes outer rest) : Closes (arm :: outer) (inner.words ++ .close :: rest)
  | alt (inner : Nesting) {outer : List Arm} {rest : List (Instruction Unit)}
      (h : Closes (.other :: outer) rest) :
      Closes (.first :: outer) (inner.words ++ .alt () :: rest)

/-- What extends every nesting to the left extends words that close arms. -/
theorem Closes.prepend {arms : List Arm} {words : List (Instruction Unit)}
    (front : List (Instruction Unit)) (extend : Nesting → Nesting)
    (hextend : ∀ nesting, (extend nesting).words = front ++ nesting.words)
    (h : Closes arms words) : Closes arms (front ++ words) := by
  cases h with
  | balanced nesting =>
      rw [← hextend]
      exact .balanced _
  | close inner h =>
      rw [← List.append_assoc, ← hextend]
      exact .close _ h
  | alt inner h =>
      rw [← List.append_assoc, ← hextend]
      exact .alt _ h

theorem Closes.basic {arms : List Arm} {words : List (Instruction Unit)} (h : Closes arms words)
    (basic : Basic) : Closes arms (basic.instruction :: words) :=
  h.prepend [basic.instruction] (.basic basic) (fun _ => rfl)

/-- A block that is opened here and closed further on becomes part of a nesting. -/
theorem Closes.cond {arms : List Arm} {words : List (Instruction Unit)}
    (h : Closes (.first :: arms) words) : Closes arms (.cond () :: words) := by
  cases h with
  | close thenPart h =>
      have hblock := h.prepend (.cond () :: (thenPart.words ++ [.close]))
        (.ifEnd thenPart) (fun nesting => by simp [Nesting.words])
      simpa using hblock
  | alt thenPart h =>
      cases h with
      | close elsePart h =>
          have hblock := h.prepend
            (.cond () :: (thenPart.words ++ .alt () :: (elsePart.words ++ [.close])))
            (.ifElse thenPart elsePart) (fun nesting => by simp [Nesting.words])
          simpa using hblock

/-- Without a fault, the words close what is open before them. -/
theorem closes_of_fault?_eq_none {opened : List (Located Arm)}
    {instructions : List (Located (Instruction τ))} (h : fault? opened instructions = none) :
    Closes (opened.map (·.value)) (wordsOf instructions) := by
  induction instructions generalizing opened with
  | nil =>
      cases opened with
      | nil => exact .balanced .done
      | cons arm outer => exact nomatch h
  | cons located rest ih =>
      obtain ⟨instruction, span⟩ := located
      cases instruction with
      | cond target => exact (ih h).cond
      | alt target =>
          -- In a second arm, or outside of all blocks, this would be a fault.
          match opened, h with
          | ⟨.first, _⟩ :: outer, h => exact .alt .done (ih h)
      | close =>
          match opened, h with
          | _ :: outer, h => exact .close .done (ih h)
      | push value => exact (ih h).basic (.push value)
      | plus => exact (ih h).basic .plus
      | minus => exact (ih h).basic .minus
      | equal => exact (ih h).basic .equal
      | dump => exact (ih h).basic .dump

/-- There is no fault in exactly the balanced words. -/
theorem fault?_eq_none_iff {instructions : List (Located (Instruction τ))} :
    fault? [] instructions = none ↔ Balanced (wordsOf instructions) := by
  constructor
  · intro h
    generalize hwords : wordsOf instructions = words
    have hcloses := closes_of_fault?_eq_none h
    rw [hwords] at hcloses
    cases hcloses with
    | balanced nesting => exact ⟨nesting, rfl⟩
  · rintro ⟨nesting, hwords⟩
    have h := fault?_append hwords.symm [] []
    rwa [List.append_nil] at h

/-! ## Targets -/

theorem map_span_linkFrom (index : Nat) (instructions : List (Located (Instruction τ))) :
    (linkFrom index instructions).instructions.map (·.span) = instructions.map (·.span) := by
  induction instructions generalizing index with
  | nil => rfl
  | cons located rest ih =>
      obtain ⟨instruction, span⟩ := located
      cases instruction <;> simp [linkFrom, ih]

theorem linkFrom_basic (index : Nat) (basic : Basic) (span : Span)
    (rest : List (Located (Instruction τ))) :
    linkFrom index (⟨basic.instruction, span⟩ :: rest) =
      ⟨(linkFrom (index + 1) rest).closers,
        ⟨basic.instruction, span⟩ :: (linkFrom (index + 1) rest).instructions⟩ := by
  cases basic <;> rfl

/-- An opener takes the closer of its arm away from those to its right. -/
theorem linkFrom_cond (index : Nat) (target : τ) (span : Span)
    (rest : List (Located (Instruction τ))) {closer : Nat} {closers : List Nat}
    (h : (linkFrom (index + 1) rest).closers = closer :: closers) :
    linkFrom index (⟨.cond target, span⟩ :: rest) =
      ⟨closers, ⟨.cond closer, span⟩ :: (linkFrom (index + 1) rest).instructions⟩ := by
  simp only [linkFrom, h, List.headD_cons, List.tail_cons]

/-- The middle of a block closes one arm, and takes the closer of the other. -/
theorem linkFrom_alt (index : Nat) (target : τ) (span : Span)
    (rest : List (Located (Instruction τ))) {closer : Nat} {closers : List Nat}
    (h : (linkFrom (index + 1) rest).closers = closer :: closers) :
    linkFrom index (⟨.alt target, span⟩ :: rest) =
      ⟨(index + 1) :: closers,
        ⟨.alt closer, span⟩ :: (linkFrom (index + 1) rest).instructions⟩ := by
  simp only [linkFrom, h, List.headD_cons, List.tail_cons]

theorem linkFrom_close (index : Nat) (span : Span) (rest : List (Located (Instruction τ))) :
    linkFrom index (⟨.close, span⟩ :: rest) =
      ⟨(index + 1) :: (linkFrom (index + 1) rest).closers,
        ⟨.close, span⟩ :: (linkFrom (index + 1) rest).instructions⟩ := rfl

/-- A nesting closes nothing to its left, and its targets lie within it. -/
theorem linkFrom_append {front : List (Located (Instruction τ))} {nesting : Nesting}
    (h : wordsOf front = nesting.words) (back : List (Located (Instruction τ))) (index : Nat) :
    (linkFrom index (front ++ back)).closers = (linkFrom (index + nesting.size) back).closers ∧
      (linkFrom index (front ++ back)).instructions.map (·.value) = nesting.linked index ++
        (linkFrom (index + nesting.size) back).instructions.map (·.value) := by
  induction nesting generalizing front back index with
  | done =>
      obtain rfl := List.map_eq_nil_iff.mp h
      exact ⟨rfl, rfl⟩
  | basic word rest ih =>
      obtain ⟨span, tail, rfl, hrest⟩ := exists_of_wordsOf_basic h
      obtain ⟨hclosers, hvalues⟩ := ih hrest back (index + 1)
      have hsize : index + (Nesting.basic word rest).size = index + 1 + rest.size := by
        rw [Nesting.size_basic]
        omega
      rw [hsize, List.cons_append, linkFrom_basic]
      exact ⟨hclosers, congrArg (word.instruction :: ·) hvalues⟩
  | ifEnd thenPart rest ihThen ih =>
      obtain ⟨target, span, thenFront, closer, tail, rfl, hthen, hrest⟩ := exists_of_wordsOf_ifEnd h
      have hsize : index + (Nesting.ifEnd thenPart rest).size =
          index + 1 + thenPart.size + 1 + rest.size := by
        rw [Nesting.size_ifEnd]
        omega
      -- Linking goes from right to left: the closer is on top when the block's opener is met.
      obtain ⟨hclosers, hvalues⟩ := ih hrest back (index + 1 + thenPart.size + 1)
      obtain ⟨hthenClosers, hthenValues⟩ := ihThen hthen
        (⟨.close, closer⟩ :: (tail ++ back)) (index + 1)
      rw [linkFrom_close] at hthenClosers hthenValues
      rw [hsize, ← hclosers, List.cons_append, List.append_assoc, List.cons_append,
        linkFrom_cond _ _ _ _ hthenClosers]
      refine ⟨rfl, ?_⟩
      simp only [List.map_cons, hthenValues, hvalues, Nesting.linked, List.cons_append,
        List.append_assoc]
  | ifElse thenPart elsePart rest ihThen ihElse ih =>
      obtain ⟨target, span, thenFront, exit, middle, elseFront, closer, tail, rfl, hthen, helse,
        hrest⟩ := exists_of_wordsOf_ifElse h
      have hsize : index + (Nesting.ifElse thenPart elsePart rest).size =
          index + 1 + thenPart.size + 1 + elsePart.size + 1 + rest.size := by
        rw [Nesting.size_ifElse]
        omega
      obtain ⟨hclosers, hvalues⟩ := ih hrest back
        (index + 1 + thenPart.size + 1 + elsePart.size + 1)
      obtain ⟨helseClosers, helseValues⟩ := ihElse helse
        (⟨.close, closer⟩ :: (tail ++ back)) (index + 1 + thenPart.size + 1)
      rw [linkFrom_close] at helseClosers helseValues
      obtain ⟨hthenClosers, hthenValues⟩ := ihThen hthen
        (⟨.alt exit, middle⟩ :: (elseFront ++ ⟨.close, closer⟩ :: (tail ++ back)))
        (index + 1)
      rw [linkFrom_alt _ _ _ _ helseClosers] at hthenClosers hthenValues
      rw [hsize, ← hclosers]
      simp only [List.cons_append, List.append_assoc]
      rw [linkFrom_cond _ _ _ _ hthenClosers]
      refine ⟨rfl, ?_⟩
      simp only [List.map_cons, hthenValues, helseValues, hvalues, Nesting.linked,
        List.cons_append, List.append_assoc]

end Blocks

/-! ## Openers and closers -/

/-- Which words close the arm that a word opens. -/
def Instruction.ClosedBy : Instruction Unit → Instruction Unit → Prop
  | cond _, closer => closer.IsDelimiter
  | alt _, closer => closer = close
  | _, _ => False

theorem Instruction.ClosedBy.isDelimiter {opener closer : Instruction Unit}
    (h : opener.ClosedBy closer) : closer.IsDelimiter := by
  cases opener with
  | cond _ => exact h
  | alt _ =>
      cases h
      trivial
  | _ => exact h.elim

/-- The word at one index closes the arm that the word at another opens: what stands between them is
balanced. -/
def Answers (words : List (Instruction Unit)) (start stop : Nat) : Prop :=
  ∃ (before : List (Instruction Unit)) (opener : Instruction Unit) (inner : Nesting)
    (closer : Instruction Unit) (after : List (Instruction Unit)),
    words = before ++ opener :: (inner.words ++ closer :: after) ∧ opener.ClosedBy closer ∧
      start = before.length ∧ stop = before.length + 1 + inner.size

namespace Answers

theorem lt {words : List (Instruction Unit)} {start stop : Nat} (h : Answers words start stop) :
    start < stop ∧ stop < words.length := by
  obtain ⟨before, opener, inner, closer, after, rfl, -, rfl, rfl⟩ := h
  simp only [List.length_append, List.length_cons, Nesting.size]
  omega

/-- An arm is closed in one place only. -/
theorem unique {words : List (Instruction Unit)} {start stop stop' : Nat}
    (h : Answers words start stop) (h' : Answers words start stop') : stop = stop' := by
  obtain ⟨before, opener, inner, closer, after, rfl, hclosed, rfl, rfl⟩ := h
  obtain ⟨before', opener', inner', closer', after', hwords, hclosed', hlength, rfl⟩ := h'
  obtain ⟨rfl, hbehind⟩ := List.append_inj hwords hlength
  have hinner := (List.cons.inj hbehind).2
  obtain ⟨rfl, -, -⟩ := Nesting.words_append_delimiter_inj hclosed.isDelimiter
    hclosed'.isDelimiter hinner
  rfl

/-- What is closed in a part of the words is closed in the whole. -/
theorem within {words : List (Instruction Unit)} {start stop : Nat} (h : Answers words start stop)
    {whole : List (Instruction Unit)} {wholeStart wholeStop : Nat}
    (front back : List (Instruction Unit)) (hwhole : whole = front ++ (words ++ back))
    (hstart : wholeStart = front.length + start) (hstop : wholeStop = front.length + stop) :
    Answers whole wholeStart wholeStop := by
  obtain ⟨before, opener, inner, closer, after, rfl, hclosed, rfl, rfl⟩ := h
  refine ⟨front ++ before, opener, inner, closer, after ++ back, ?_, hclosed, ?_, ?_⟩
  · simp [hwhole]
  · simp [hstart]
  · simp only [List.length_append]
    omega

end Answers

/-- The instruction at an index jumps to a target. -/
def JumpsTo (instructions : List (Instruction Nat)) (index target : Nat) : Prop :=
  instructions[index]? = some (.cond target) ∨ instructions[index]? = some (.alt target)

theorem JumpsTo.append {left right : List (Instruction Nat)} {index target : Nat}
    (h : JumpsTo (left ++ right) index target) :
    JumpsTo left index target ∨
      ∃ offset, index = left.length + offset ∧ JumpsTo right offset target := by
  unfold JumpsTo at h
  by_cases hindex : index < left.length
  · rw [List.getElem?_append_left hindex] at h
    exact .inl h
  · rw [List.getElem?_append_right (Nat.le_of_not_lt hindex)] at h
    exact .inr ⟨index - left.length, by omega, h⟩

theorem JumpsTo.cons {first : Instruction Nat} {rest : List (Instruction Nat)} {index target : Nat}
    (h : JumpsTo (first :: rest) index target) :
    index = 0 ∧ (first = .cond target ∨ first = .alt target) ∨
      ∃ offset, index = offset + 1 ∧ JumpsTo rest offset target := by
  cases index with
  | zero =>
      unfold JumpsTo at h
      simp only [List.getElem?_cons_zero, Option.some.injEq] at h
      exact .inl ⟨rfl, h⟩
  | succ offset => exact .inr ⟨offset, rfl, h⟩

namespace Nesting

/-- Every target of a nesting is the place behind the word that closes the arm. -/
theorem answers_of_jumpsTo {nesting : Nesting} {base index target : Nat}
    (h : JumpsTo (nesting.linked base) index target) :
    ∃ stop, target = base + stop + 1 ∧ Answers nesting.words index stop := by
  induction nesting generalizing base index with
  | done => rcases h with h | h <;> cases h
  | basic word rest ih =>
      obtain ⟨-, hword⟩ | ⟨offset, rfl, hrest⟩ := h.cons
      -- A basic word has no target, so the jump is one of the rest.
      · rcases hword with hword | hword <;> cases word <;> cases hword
      obtain ⟨stop, rfl, hanswers⟩ := ih hrest
      exact ⟨stop + 1, by omega, hanswers.within [word.instruction] [] (by simp [words])
        (Nat.add_comm _ _) (Nat.add_comm _ _)⟩
  | ifEnd thenPart rest ihThen ih =>
      -- The jump is the opener's own, or it stands in the arm, or behind the closer.
      obtain ⟨rfl, hword⟩ | ⟨offset, rfl, hbehind⟩ := h.cons
      · obtain hword | hword := hword
        · cases hword
          exact ⟨1 + thenPart.size, by omega, [], .cond (), thenPart, .close, rest.words, rfl,
            trivial, rfl, by simp⟩
        · cases hword
      obtain hthen | ⟨offset, rfl, hclosing⟩ := hbehind.append
      · obtain ⟨stop, rfl, hanswers⟩ := ihThen hthen
        exact ⟨stop + 1, by omega, hanswers.within [.cond ()] (.close :: rest.words)
          (by simp [words]) (Nat.add_comm _ _) (Nat.add_comm _ _)⟩
      obtain ⟨-, hword⟩ | ⟨offset, rfl, hrest⟩ := hclosing.cons
      · rcases hword with hword | hword <;> cases hword
      obtain ⟨stop, rfl, hanswers⟩ := ih hrest
      refine ⟨thenPart.size + 2 + stop, by omega,
        hanswers.within (.cond () :: (thenPart.words ++ [.close])) [] (by simp [words]) ?_ ?_⟩
      · simp only [length_linked, List.length_cons, List.length_append, List.length_nil, size]
        omega
      · simp only [List.length_cons, List.length_append, List.length_nil, size]
  | ifElse thenPart elsePart rest ihThen ihElse ih =>
      obtain ⟨rfl, hword⟩ | ⟨offset, rfl, hbehind⟩ := h.cons
      · obtain hword | hword := hword
        · cases hword
          exact ⟨1 + thenPart.size, by omega, [], .cond (), thenPart, .alt (),
            elsePart.words ++ .close :: rest.words, rfl, trivial, rfl, by simp⟩
        · cases hword
      obtain hthen | ⟨offset, rfl, hmiddle⟩ := hbehind.append
      · obtain ⟨stop, rfl, hanswers⟩ := ihThen hthen
        exact ⟨stop + 1, by omega, hanswers.within [.cond ()]
          (.alt () :: (elsePart.words ++ .close :: rest.words)) (by simp [words])
          (Nat.add_comm _ _) (Nat.add_comm _ _)⟩
      obtain ⟨rfl, hword⟩ | ⟨offset, rfl, hother⟩ := hmiddle.cons
      · obtain hword | hword := hword
        · cases hword
        · cases hword
          refine ⟨1 + thenPart.size + 1 + elsePart.size, by omega, .cond () :: thenPart.words,
            .alt (), elsePart, .close, rest.words, by simp [words], rfl, ?_, ?_⟩
          · simp only [length_linked, List.length_cons, size]
          · simp only [List.length_cons, size]
            omega
      obtain helse | ⟨offset, rfl, hclosing⟩ := hother.append
      · obtain ⟨stop, rfl, hanswers⟩ := ihElse helse
        refine ⟨thenPart.size + 2 + stop, by omega, hanswers.within
          (.cond () :: (thenPart.words ++ [.alt ()])) (.close :: rest.words) (by simp [words])
          ?_ ?_⟩
        · simp only [length_linked, List.length_cons, List.length_append, List.length_nil, size]
          omega
        · simp only [List.length_cons, List.length_append, List.length_nil, size]
      obtain ⟨-, hword⟩ | ⟨offset, rfl, hrest⟩ := hclosing.cons
      · rcases hword with hword | hword <;> cases hword
      obtain ⟨stop, rfl, hanswers⟩ := ih hrest
      refine ⟨thenPart.size + elsePart.size + 3 + stop, by omega, hanswers.within
        (.cond () :: (thenPart.words ++ .alt () :: (elsePart.words ++ [.close]))) []
        (by simp [words]) ?_ ?_⟩
      · simp only [length_linked, List.length_cons, List.length_append, List.length_nil, size]
        omega
      · simp only [List.length_cons, List.length_append, List.length_nil, size]
        omega

end Nesting

/-! ## Results -/

open Blocks

theorem eq_of_map_value_of_map_span {α : Type} {left right : List (Located α)}
    (hvalues : left.map (·.value) = right.map (·.value))
    (hspans : left.map (·.span) = right.map (·.span)) : left = right := by
  induction left generalizing right with
  | nil =>
      cases right with
      | nil => rfl
      | cons => exact nomatch hvalues
  | cons head tail ih =>
      cases right with
      | nil => exact nomatch hvalues
      | cons head' tail' =>
          obtain ⟨hvalue, hvalues⟩ := List.cons.inj hvalues
          obtain ⟨hspan, hspans⟩ := List.cons.inj hspans
          obtain rfl := ih hvalues hspans
          cases head
          cases head'
          cases hvalue
          cases hspan
          rfl

/-- Linked instructions are those of a nesting, whichever way their words were read. -/
theorem map_value_of_link_eq_ok {instructions : List (Located (Instruction τ))}
    {linked : List (Located (Instruction Nat))} {nesting : Nesting}
    (h : link instructions = .ok linked) (hwords : wordsOf instructions = nesting.words) :
    linked.map (·.value) = nesting.linked 0 := by
  have hfault := fault?_eq_none_iff.mpr ⟨nesting, hwords.symm⟩
  have hlinked := (linkFrom_append hwords [] 0).2
  rw [link, hfault] at h
  cases h
  simpa [linkFrom] using hlinked

theorem map_span_of_link_eq_ok {instructions : List (Located (Instruction τ))}
    {linked : List (Located (Instruction Nat))} (h : link instructions = .ok linked) :
    linked.map (·.span) = instructions.map (·.span) := by
  unfold link at h
  split at h
  next => exact nomatch h
  next =>
    cases h
    exact map_span_linkFrom 0 instructions

/-- Linking succeeds on exactly the words in which every block is closed. -/
theorem exists_link_eq_ok_iff {instructions : List (Located (Instruction τ))} :
    (∃ linked, link instructions = .ok linked) ↔ Balanced (wordsOf instructions) := by
  rw [← fault?_eq_none_iff]
  unfold link
  cases fault? [] instructions <;> simp

theorem wordsOf_of_link_eq_ok {instructions : List (Located (Instruction τ))}
    {linked : List (Located (Instruction Nat))} (h : link instructions = .ok linked) :
    wordsOf linked = wordsOf instructions := by
  obtain ⟨nesting, hwords⟩ := exists_link_eq_ok_iff.mp ⟨linked, h⟩
  rw [← hwords, ← Nesting.map_word_linked nesting 0, ← map_value_of_link_eq_ok h hwords.symm,
    List.map_map]
  rfl

/-- Linking again changes nothing. -/
theorem link_of_link_eq_ok {instructions : List (Located (Instruction τ))}
    {linked : List (Located (Instruction Nat))} (h : link instructions = .ok linked) :
    link linked = .ok linked := by
  obtain ⟨nesting, hwords⟩ := exists_link_eq_ok_iff.mp ⟨linked, h⟩
  have hvalues := map_value_of_link_eq_ok h hwords.symm
  have hlinkedWords : wordsOf linked = nesting.words := by rw [wordsOf_of_link_eq_ok h, hwords]
  obtain ⟨again, hagain⟩ := exists_link_eq_ok_iff.mpr ⟨nesting, hlinkedWords.symm⟩
  have hagainValues := map_value_of_link_eq_ok hagain hlinkedWords
  rw [hagain]
  congr 1
  apply eq_of_map_value_of_map_span
  · rw [hagainValues, hvalues]
  · exact map_span_of_link_eq_ok hagain

/-- Linking succeeds on exactly the balanced words, whatever targets they carry. It keeps the
places and the words, and the target of an opener is the index behind the word that closes its arm;
so targets lie ahead and within the instructions, and linking again changes nothing. -/
theorem link_balanced_targets (instructions : List (Located (Instruction τ))) :
    ((∃ linked, link instructions = .ok linked) ↔ Balanced (wordsOf instructions)) ∧
      ∀ linked, link instructions = .ok linked →
        linked.length = instructions.length ∧
        linked.map (·.span) = instructions.map (·.span) ∧
        wordsOf linked = wordsOf instructions ∧
        (∀ index target, JumpsTo (linked.map (·.value)) index target →
          (∀ stop, target = stop + 1 ↔ Answers (wordsOf instructions) index stop) ∧
          index < target ∧ target ≤ linked.length) ∧
        link linked = .ok linked := by
  refine ⟨exists_link_eq_ok_iff, ?_⟩
  intro linked h
  obtain ⟨nesting, hwords⟩ := exists_link_eq_ok_iff.mp ⟨linked, h⟩
  have hvalues := map_value_of_link_eq_ok h hwords.symm
  have hspans := map_span_of_link_eq_ok h
  have hlength : linked.length = instructions.length := by
    simpa using congrArg List.length hspans
  refine ⟨hlength, hspans, wordsOf_of_link_eq_ok h, ?_, link_of_link_eq_ok h⟩
  intro index target hjump
  -- One word answers an opener at most, so the word that the nesting names is the only one.
  rw [hvalues] at hjump
  obtain ⟨stop, rfl, hanswers⟩ := Nesting.answers_of_jumpsTo hjump
  rw [hwords] at hanswers
  rw [Nat.zero_add]
  refine ⟨?_, ?_, ?_⟩
  · intro stop'
    constructor
    · intro heq
      obtain rfl : stop = stop' := by omega
      exact hanswers
    · intro hanswers'
      rw [hanswers.unique hanswers']
  · have hlt := hanswers.lt
    omega
  · have hlt := hanswers.lt
    rw [wordsOf, List.length_map] at hlt
    omega

end Stacklet
