import Mathlib.Data.List.Forall2
import Stacklet.Proofs.Word.Linking

/-! # Linking in place

Targets can also be filled in where they are missing, in one pass from the left. The pass keeps the
indices of the words that opened the arms still open, innermost first. A word that closes an arm
looks up the innermost of these and sets its target; it has to be prepared for an index at which no
arm was opened. Every index that is kept is that of an opener, so the pass finds the faults that
linking finds and no others, and without a fault it sets the same targets.
-/

namespace Stacklet

namespace Blocks

/-- Instructions of which some targets are known. -/
abbrev Draft := List (Located (Instruction (Option Nat)))

/-- A pass over instructions: how they look by now, and the indices of the openers of the open arms,
innermost first. -/
structure Pass where
  instructions : Draft
  opened : List Nat

namespace Pass

/-- What stands at the innermost of the indices. -/
def opener? (pass : Pass) : Option (Located (Instruction (Option Nat))) :=
  pass.opened.head?.bind (pass.instructions[·]?)

/-- Opens an arm at an index. -/
def enter (pass : Pass) (index : Nat) : Pass :=
  { pass with opened := index :: pass.opened }

/-- Closes the innermost arm, the opener of which gets a target. -/
def leave (pass : Pass) (target : Nat) : Pass where
  instructions := match pass.opened with
    | [] => pass.instructions
    | index :: _ => pass.instructions.modify index (.map (.map fun _ => some target))
  opened := pass.opened.tail

/-- Passes the word at an index. -/
def step (pass : Pass) (index : Nat) : Except (Located BlockError) Pass :=
  match pass.instructions[index]? with
  | none => .ok pass
  | some ⟨instruction, span⟩ =>
    match instruction, pass.opener?.map Located.value with
    | .cond _, _ => .ok (pass.enter index)
    | .alt _, some (.cond _) => .ok ((pass.leave (index + 1)).enter index)
    | .alt _, some _ => .error ⟨.elseAfterElse, span⟩
    | .alt _, none => .error ⟨.unmatchedElse, span⟩
    | .close, some (.cond _) => .ok (pass.leave (index + 1))
    | .close, some (.alt _) => .ok (pass.leave (index + 1))
    | .close, some other => .error ⟨.mismatchedEnd other.word, span⟩
    | .close, none => .error ⟨.unmatchedEnd, span⟩
    | _, _ => .ok pass

/-- Passes some words from an index on. -/
def run (pass : Pass) (index count : Nat) : Except (Located BlockError) Pass :=
  (List.range' index count).foldlM step pass

/-- The instructions of a pass that came to the end. -/
def finish (pass : Pass) : Except (Located BlockError) Draft :=
  match pass.opener? with
  | some opener => .error ⟨.unclosed, opener.span⟩
  | none => .ok pass.instructions

end Pass

/-- Links instructions in place. -/
def linkInPlace (instructions : Draft) : Except (Located BlockError) Draft := do
  let pass ← Pass.run ⟨instructions, []⟩ 0 instructions.length
  pass.finish

/-- Linked instructions, as a draft in which no target is missing. -/
def filled (instructions : List (Located (Instruction Nat))) : Draft :=
  instructions.map (.map (.map some))

@[simp] theorem filled_nil : filled [] = [] := rfl

@[simp] theorem filled_cons (instruction : Instruction Nat) (span : Span)
    (rest : List (Located (Instruction Nat))) :
    filled (⟨instruction, span⟩ :: rest) = ⟨instruction.map some, span⟩ :: filled rest := rfl

@[simp] theorem filled_append (front back : List (Located (Instruction Nat))) :
    filled (front ++ back) = filled front ++ filled back :=
  List.map_append

@[simp] theorem length_filled (instructions : List (Located (Instruction Nat))) :
    (filled instructions).length = instructions.length :=
  List.length_map _

/-! ## Runs -/

namespace Pass

variable {pass next : Pass} {index : Nat}

@[simp] theorem run_zero : pass.run index 0 = .ok pass := rfl

theorem run_succ_of_step (h : pass.step index = .ok next) (count : Nat) :
    pass.run index (count + 1) = next.run (index + 1) count := by
  rw [run, List.range'_succ, List.foldlM_cons, h]
  rfl

theorem run_succ_of_error {error : Located BlockError} (h : pass.step index = .error error)
    (count : Nat) : pass.run index (count + 1) = .error error := by
  rw [run, List.range'_succ, List.foldlM_cons, h]
  rfl

theorem run_add_of_run {first : Nat} (h : pass.run index first = .ok next) (second : Nat) :
    pass.run index (first + second) = next.run (index + first) second := by
  rw [run] at h
  rw [run, ← List.range'_append, List.foldlM_append, Nat.one_mul, h]
  rfl

end Pass

/-- The arm that an instruction opens. -/
def armOf? {τ : Type} : Instruction τ → Option Arm
  | .cond _ => some .first
  | .alt _ => some .other
  | _ => none

namespace Pass

variable {pass : Pass} {index : Nat} {span : Span}

theorem step_basic {basic : Basic}
    (h : pass.instructions[index]? = some ⟨basic.instruction, span⟩) :
    pass.step index = .ok pass := by
  cases basic <;> simp only [step, h, Basic.instruction]

theorem step_cond {target : Option Nat}
    (h : pass.instructions[index]? = some ⟨.cond target, span⟩) :
    pass.step index = .ok (pass.enter index) := by
  simp only [step, h]

theorem step_alt_of_first {target : Option Nat} {opener : Located (Instruction (Option Nat))}
    (h : pass.instructions[index]? = some ⟨.alt target, span⟩)
    (hopener : pass.opener? = some opener) (harm : armOf? opener.value = some .first) :
    pass.step index = .ok ((pass.leave (index + 1)).enter index) := by
  obtain ⟨instruction, place⟩ := opener
  cases instruction <;> cases harm
  simp only [step, h, hopener, Option.map_some]

theorem step_alt_of_other {target : Option Nat} {opener : Located (Instruction (Option Nat))}
    (h : pass.instructions[index]? = some ⟨.alt target, span⟩)
    (hopener : pass.opener? = some opener) (harm : armOf? opener.value = some .other) :
    pass.step index = .error ⟨.elseAfterElse, span⟩ := by
  obtain ⟨instruction, place⟩ := opener
  cases instruction <;> cases harm
  simp only [step, h, hopener, Option.map_some]

theorem step_alt_of_none {target : Option Nat}
    (h : pass.instructions[index]? = some ⟨.alt target, span⟩) (hopener : pass.opener? = none) :
    pass.step index = .error ⟨.unmatchedElse, span⟩ := by
  simp only [step, h, hopener, Option.map_none]

/-- Whichever arm is open, it can be closed. -/
theorem step_close_of_arm {opener : Located (Instruction (Option Nat))} {arm : Arm}
    (h : pass.instructions[index]? = some ⟨.close, span⟩) (hopener : pass.opener? = some opener)
    (harm : armOf? opener.value = some arm) :
    pass.step index = .ok (pass.leave (index + 1)) := by
  obtain ⟨instruction, place⟩ := opener
  cases instruction <;> cases harm <;> simp only [step, h, hopener, Option.map_some]

theorem step_close_of_none (h : pass.instructions[index]? = some ⟨.close, span⟩)
    (hopener : pass.opener? = none) : pass.step index = .error ⟨.unmatchedEnd, span⟩ := by
  simp only [step, h, hopener, Option.map_none]

end Pass

/-! ## Targets -/

theorem modify_append {α : Type} (f : α → α) (front : List α) (found : α) (back : List α) :
    (front ++ found :: back).modify front.length f = front ++ f found :: back := by
  induction front with
  | nil => rfl
  | cons first front ih =>
      rw [List.cons_append, List.length_cons, List.modify_succ_cons, ih, List.cons_append]

theorem getElem?_append_length {α : Type} {front back : List α} {found : α} {index : Nat}
    (h : front.length = index) : (front ++ found :: back)[index]? = some found := by
  subst h
  simp

theorem opener?_append (done back : Draft) (opener : Located (Instruction (Option Nat)))
    (outer : List Nat) :
    Pass.opener? ⟨done ++ opener :: back, done.length :: outer⟩ = some opener := by
  simp [Pass.opener?]

theorem leave_append (done back : Draft) (opener : Located (Instruction (Option Nat)))
    (outer : List Nat) (target : Nat) :
    Pass.leave ⟨done ++ opener :: back, done.length :: outer⟩ target =
      ⟨done ++ opener.map (.map fun _ => some target) :: back, outer⟩ :=
  congrArg (Pass.mk · outer) (modify_append _ done opener back)

/-- The pass fills in the targets of instructions from an index on, whatever stands before and
behind them, and leaves open what is open around them. -/
structure Fills (index : Nat) (front : Draft) (linked : List (Located (Instruction Nat))) :
    Prop where
  length_eq : linked.length = front.length
  run_eq : ∀ (done back : Draft) (opened : List Nat), done.length = index →
    Pass.run ⟨done ++ (front ++ back), opened⟩ index front.length =
      .ok ⟨done ++ (filled linked ++ back), opened⟩

namespace Fills

variable {index : Nat}

theorem nil : Fills index [] [] :=
  ⟨rfl, fun _ _ _ _ => rfl⟩

theorem basic (word : Basic) (span : Span) :
    Fills index [⟨word.instruction, span⟩] [⟨word.instruction, span⟩] := by
  refine ⟨rfl, ?_⟩
  rintro done back opened rfl
  have hword : (done ++ ⟨word.instruction, span⟩ :: back)[done.length]? =
      some ⟨word.instruction, span⟩ := by
    simp
  have hstep := @Pass.step_basic ⟨_, opened⟩ _ _ _ hword
  cases word <;> exact Pass.run_succ_of_step hstep 0

theorem append {front back : Draft} {frontLinked backLinked : List (Located (Instruction Nat))}
    (hfront : Fills index front frontLinked)
    (hback : Fills (index + front.length) back backLinked) :
    Fills index (front ++ back) (frontLinked ++ backLinked) := by
  refine ⟨by rw [List.length_append, List.length_append, hfront.length_eq, hback.length_eq], ?_⟩
  intro done behind opened hdone
  have hfirst := hfront.run_eq done (back ++ behind) opened hdone
  have hsecond := hback.run_eq (done ++ filled frontLinked) behind opened
    (by rw [List.length_append, hdone, length_filled, hfront.length_eq])
  rw [List.append_assoc, List.append_assoc] at hsecond
  rw [List.append_assoc, List.length_append, Pass.run_add_of_run hfirst, hsecond, filled_append,
    List.append_assoc]

end Fills

/-- From behind the opener of an arm at an index, the pass comes to the end of the block: the opener
gets a target, and the words of the block get theirs. -/
structure Answered (arm : Arm) (index : Nat) (rest : Draft)
    (linked : List (Located (Instruction Nat))) (target : Nat) : Prop where
  length_eq : linked.length = rest.length
  run_eq : ∀ (done back : Draft) (opener : Located (Instruction (Option Nat))) (outer : List Nat),
    done.length = index → armOf? opener.value = some arm →
    Pass.run ⟨done ++ opener :: (rest ++ back), index :: outer⟩ (index + 1) rest.length =
      .ok ⟨done ++ opener.map (.map fun _ => some target) :: (filled linked ++ back), outer⟩

/-- Passes what stands in an arm, up to the word behind it. -/
theorem Fills.run_arm {index : Nat} {inner : Draft} {linked : List (Located (Instruction Nat))}
    (h : Fills (index + 1) inner linked) {done : Draft} (hdone : done.length = index)
    (opener : Located (Instruction (Option Nat))) (back : Draft) (outer : List Nat) (count : Nat) :
    Pass.run ⟨done ++ opener :: (inner ++ back), index :: outer⟩ (index + 1)
        (inner.length + count) =
      Pass.run ⟨done ++ opener :: (filled linked ++ back), index :: outer⟩
        (index + 1 + inner.length) count := by
  have hinner := h.run_eq (done ++ [opener]) back (index :: outer) (by simp [hdone])
  rw [List.append_assoc, List.append_assoc] at hinner
  exact Pass.run_add_of_run hinner count

theorem Fills.length_arm {index : Nat} {inner : Draft} {linked : List (Located (Instruction Nat))}
    (h : Fills (index + 1) inner linked) {done : Draft} (hdone : done.length = index)
    (opener : Located (Instruction (Option Nat))) :
    (done ++ opener :: filled linked).length = index + 1 + inner.length := by
  simp only [List.length_append, List.length_cons, length_filled, h.length_eq, hdone]
  omega

/-- Either arm can be the last of its block. -/
theorem Fills.answered {index : Nat} {inner : Draft} {linked : List (Located (Instruction Nat))}
    (h : Fills (index + 1) inner linked) (arm : Arm) (closer : Span) :
    Answered arm index (inner ++ [⟨.close, closer⟩]) (linked ++ [⟨.close, closer⟩])
      (index + 1 + inner.length + 1) := by
  refine ⟨by simp [h.length_eq], ?_⟩
  rintro done back opener outer rfl harm
  have hcloser := @getElem?_append_length _ _ back ⟨Instruction.close, closer⟩ _
    (h.length_arm rfl opener)
  rw [List.append_assoc] at hcloser
  have hclose := @Pass.step_close_of_arm ⟨_, done.length :: outer⟩ _ _ _ _ hcloser
    (opener?_append _ _ _ _) harm
  rw [List.cons_append, leave_append] at hclose
  rw [List.length_append, List.append_assoc, h.run_arm rfl]
  simpa [Instruction.map] using Pass.run_succ_of_step hclose 0

/-- A first arm may be followed by another. -/
theorem Answered.alt {index : Nat} {inner rest : Draft}
    {linked restLinked : List (Located (Instruction Nat))} {target : Nat}
    (h : Answered .other (index + 1 + inner.length) rest restLinked target)
    (hinner : Fills (index + 1) inner linked) (exit : Option Nat) (between : Span) :
    Answered .first index (inner ++ ⟨.alt exit, between⟩ :: rest)
      (linked ++ ⟨.alt target, between⟩ :: restLinked) (index + 1 + inner.length + 1) := by
  refine ⟨by simp [h.length_eq, hinner.length_eq], ?_⟩
  rintro done back opener outer rfl harm
  have hmiddle := @getElem?_append_length _ _ (rest ++ back) ⟨Instruction.alt exit, between⟩ _
    (hinner.length_arm rfl opener)
  rw [List.append_assoc] at hmiddle
  have hswitch := @Pass.step_alt_of_first ⟨_, done.length :: outer⟩ _ _ _ _ hmiddle
    (opener?_append _ _ _ _) harm
  rw [List.cons_append, leave_append] at hswitch
  have hrest := h.run_eq _ back ⟨.alt exit, between⟩ outer
    (hinner.length_arm rfl (opener.map (.map fun _ => some (done.length + 1 + inner.length + 1))))
    rfl
  rw [List.append_assoc, List.cons_append, List.append_assoc, List.cons_append] at hrest
  rw [List.length_append, List.append_assoc, hinner.run_arm rfl, List.length_cons, List.cons_append,
    Pass.run_succ_of_step hswitch, Pass.enter, hrest]
  simp [Located.map, Instruction.map]

/-- An opener and its block. -/
theorem Answered.fills {index : Nat} {rest : Draft} {linked : List (Located (Instruction Nat))}
    {target : Nat} (h : Answered .first index rest linked target) (old : Option Nat) (span : Span) :
    Fills index (⟨.cond old, span⟩ :: rest) (⟨.cond target, span⟩ :: linked) := by
  refine ⟨by simp [h.length_eq], ?_⟩
  rintro done back opened rfl
  have hopen := @Pass.step_cond ⟨_, opened⟩ _ _ _
    (@getElem?_append_length _ done (rest ++ back) ⟨.cond old, span⟩ _ rfl)
  rw [List.length_cons, List.cons_append, Pass.run_succ_of_step hopen, Pass.enter,
    h.run_eq done back _ opened rfl rfl]
  rfl

theorem length_of_wordsOf {front : Draft} {nesting : Nesting} (h : wordsOf front = nesting.words) :
    front.length = nesting.size := by
  rw [Nesting.size, ← h, wordsOf, List.length_map]

/-- The words of a nesting get the targets of the nesting. -/
theorem exists_fills {front : Draft} {nesting : Nesting} (h : wordsOf front = nesting.words)
    (index : Nat) :
    ∃ linked : List (Located (Instruction Nat)),
      linked.map (·.value) = nesting.linked index ∧ linked.map (·.span) = front.map (·.span) ∧
      Fills index front linked := by
  induction nesting generalizing front index with
  | done =>
      obtain rfl := List.map_eq_nil_iff.mp h
      exact ⟨[], rfl, rfl, .nil⟩
  | basic word rest ih =>
      obtain ⟨span, tail, rfl, hrest⟩ := exists_of_wordsOf_basic h
      obtain ⟨linked, hvalues, hspans, hfills⟩ := ih hrest (index + 1)
      exact ⟨⟨word.instruction, span⟩ :: linked, by simp [hvalues, Nesting.linked],
        by simp [hspans], (Fills.basic word span).append hfills⟩
  | ifEnd thenPart rest ihThen ih =>
      obtain ⟨target, span, thenFront, closer, tail, rfl, hthen, hrest⟩ := exists_of_wordsOf_ifEnd h
      obtain ⟨thenLinked, hthenValues, hthenSpans, hthenFills⟩ := ihThen hthen (index + 1)
      obtain ⟨linked, hvalues, hspans, hfills⟩ := ih hrest (index + 1 + thenFront.length + 1)
      have hblock := (hthenFills.answered .first closer).fills target span
      refine ⟨⟨.cond (index + 1 + thenFront.length + 1), span⟩ ::
        (thenLinked ++ [⟨.close, closer⟩]) ++ linked, ?_, ?_, ?_⟩
      · simp [hthenValues, hvalues, Nesting.linked, length_of_wordsOf hthen]
      · simp [hthenSpans, hspans]
      · have hindex : index + 1 + thenFront.length + 1 =
            index + (⟨.cond target, span⟩ :: (thenFront ++ [⟨.close, closer⟩]) : Draft).length := by
          simp only [List.length_cons, List.length_append, List.length_nil]
          omega
        simpa using hblock.append (hindex ▸ hfills)
  | ifElse thenPart elsePart rest ihThen ihElse ih =>
      obtain ⟨target, span, thenFront, exit, middle, elseFront, closer, tail, rfl, hthen, helse,
        hrest⟩ := exists_of_wordsOf_ifElse h
      obtain ⟨thenLinked, hthenValues, hthenSpans, hthenFills⟩ := ihThen hthen (index + 1)
      obtain ⟨elseLinked, helseValues, helseSpans, helseFills⟩ :=
        ihElse helse (index + 1 + thenFront.length + 1)
      obtain ⟨linked, hvalues, hspans, hfills⟩ :=
        ih hrest (index + 1 + thenFront.length + 1 + elseFront.length + 1)
      have hblock :=
        ((helseFills.answered .other closer).alt hthenFills exit middle).fills target span
      refine ⟨⟨.cond (index + 1 + thenFront.length + 1), span⟩ :: (thenLinked ++
        ⟨.alt (index + 1 + thenFront.length + 1 + elseFront.length + 1), middle⟩ ::
          (elseLinked ++ [⟨.close, closer⟩])) ++ linked, ?_, ?_, ?_⟩
      · simp [hthenValues, helseValues, hvalues, Nesting.linked, length_of_wordsOf hthen,
          length_of_wordsOf helse]
      · simp [hthenSpans, helseSpans, hspans]
      · have hindex : index + 1 + thenFront.length + 1 + elseFront.length + 1 =
            index + (⟨.cond target, span⟩ :: (thenFront ++ ⟨.alt exit, middle⟩ ::
              (elseFront ++ [⟨.close, closer⟩])) : Draft).length := by
          simp only [List.length_cons, List.length_append, List.length_nil]
          omega
        simpa using hblock.append (hindex ▸ hfills)

/-! ## Faults -/

/-- Instructions without their targets. -/
def outline {τ : Type} (instructions : List (Located (Instruction τ))) :
    List (Located (Instruction Unit)) :=
  instructions.map (.map Instruction.word)

theorem fault?_outline {τ : Type} (opened : List (Located Arm))
    (instructions : List (Located (Instruction τ))) :
    fault? opened (outline instructions) = fault? opened instructions := by
  induction instructions generalizing opened with
  | nil => rfl
  | cons located rest ih =>
      obtain ⟨instruction, span⟩ := located
      cases instruction with
      | alt target =>
          match opened with
          | ⟨.first, _⟩ :: outer => exact ih _
          | ⟨.other, _⟩ :: outer => rfl
          | [] => rfl
      | close =>
          cases opened with
          | nil => rfl
          | cons arm outer => exact ih _
      | _ => exact ih _

theorem getElem?_outline {τ : Type} {instructions : List (Located (Instruction τ))} {index : Nat}
    {word : Instruction Unit} {span : Span}
    (h : (outline instructions)[index]? = some ⟨word, span⟩) :
    ∃ instruction : Instruction τ, instructions[index]? = some ⟨instruction, span⟩ ∧
      instruction.word = word := by
  rw [outline, List.getElem?_map, Option.map_eq_some_iff] at h
  obtain ⟨⟨instruction, place⟩, hfound, hword⟩ := h
  cases hword
  exact ⟨instruction, hfound, rfl⟩

/-- The indices that a pass keeps are those of the openers of some arms. -/
def Keeps (words : List (Located (Instruction Unit))) (opened : List Nat)
    (arms : List (Located Arm)) : Prop :=
  List.Forall₂ (fun index arm => ∃ opener, words[index]? = some ⟨opener, arm.span⟩ ∧
    armOf? opener = some arm.value) opened arms

theorem armOf?_word {τ : Type} (instruction : Instruction τ) :
    armOf? instruction.word = armOf? instruction := by
  cases instruction <;> rfl

namespace Pass

variable {pass : Pass}

/-- Setting targets changes nothing else. -/
theorem outline_leave (pass : Pass) (target : Nat) :
    outline (pass.leave target).instructions = outline pass.instructions := by
  have hword : ∀ found : Located (Instruction (Option Nat)),
      (found.map (.map fun _ => some target)).map Instruction.word =
        found.map Instruction.word := by
    rintro ⟨instruction, span⟩
    cases instruction <;> rfl
  rw [leave]
  split
  next => rfl
  next index _ _ =>
    apply List.ext_getElem?
    intro position
    simp only [outline, List.getElem?_map, List.getElem?_modify]
    cases pass.instructions[position]? with
    | none => rfl
    | some found =>
      simp only [Option.map_eq_map, Option.map_some]
      split
      · rw [hword]
      · rfl

/-- Behind a closed arm the indices of the outer ones are kept. -/
theorem keeps_leave {arm : Located Arm} {outer : List (Located Arm)}
    (h : Keeps (outline pass.instructions) pass.opened (arm :: outer)) (target : Nat) :
    Keeps (outline pass.instructions) (pass.leave target).opened outer := by
  obtain ⟨instructions, opened⟩ := pass
  cases h with
  | cons _ houter => exact houter

theorem opener?_of_keeps {arm : Located Arm} {outer : List (Located Arm)}
    (h : Keeps (outline pass.instructions) pass.opened (arm :: outer)) :
    ∃ opener, pass.opener? = some ⟨opener, arm.span⟩ ∧ armOf? opener = some arm.value := by
  obtain ⟨instructions, opened⟩ := pass
  cases h with
  | cons hfirst _ =>
      obtain ⟨word, hfound, harm⟩ := hfirst
      obtain ⟨opener, hopener, rfl⟩ := getElem?_outline hfound
      exact ⟨opener, hopener, armOf?_word opener ▸ harm⟩

theorem opener?_of_keeps_nil (h : Keeps (outline pass.instructions) pass.opened []) :
    pass.opener? = none := by
  obtain ⟨instructions, opened⟩ := pass
  cases h
  rfl

end Pass

/-- The pass comes to the first fault of the words ahead of it. -/
theorem run_of_fault? {pass : Pass} {front back : List (Located (Instruction Unit))}
    {arms : List (Located Arm)} {error : Located BlockError}
    (houtline : outline pass.instructions = front ++ back)
    (hkeeps : Keeps (outline pass.instructions) pass.opened arms)
    (h : fault? arms back = some error) :
    (pass.run front.length back.length >>= Pass.finish) = .error error := by
  induction back generalizing pass front arms with
  | nil =>
      cases arms with
      | nil => cases h
      | cons arm outer =>
          cases h
          obtain ⟨opener, hopener, -⟩ := Pass.opener?_of_keeps hkeeps
          have hfinish : pass.finish = .error ⟨.unclosed, arm.span⟩ := by rw [Pass.finish, hopener]
          exact hfinish
  | cons located rest ih =>
      obtain ⟨word, span⟩ := located
      have hword : (outline pass.instructions)[front.length]? = some ⟨word, span⟩ :=
        houtline ▸ getElem?_append_length rfl
      obtain ⟨instruction, hfound, rfl⟩ := getElem?_outline hword
      have hgo : ∀ {next : Pass} {later : List (Located Arm)}, pass.step front.length = .ok next →
          outline next.instructions = outline pass.instructions →
          Keeps (outline pass.instructions) next.opened later → fault? later rest = some error →
          (pass.run front.length (rest.length + 1) >>= Pass.finish) = .error error := by
        intro next later hstep hsame hlater hfault
        have hrest := @ih next (front ++ [⟨instruction.word, span⟩]) later
          (by simp [hsame, houtline])
          (hsame ▸ hlater) hfault
        rw [List.length_append] at hrest
        rw [Pass.run_succ_of_step hstep]
        exact hrest
      have hstop : pass.step front.length = .error error →
          (pass.run front.length (rest.length + 1) >>= Pass.finish) = .error error := by
        intro hstep
        rw [Pass.run_succ_of_error hstep]
        rfl
      cases instruction with
      | cond target => exact hgo (Pass.step_cond hfound) rfl (.cons ⟨_, hword, rfl⟩ hkeeps) h
      | alt target =>
          cases arms with
          | nil =>
              cases h
              exact hstop (Pass.step_alt_of_none hfound (Pass.opener?_of_keeps_nil hkeeps))
          | cons arm outer =>
              obtain ⟨opener, hopener, harm⟩ := Pass.opener?_of_keeps hkeeps
              obtain ⟨kind, place⟩ := arm
              cases kind with
              | first =>
                  exact hgo (Pass.step_alt_of_first hfound hopener harm)
                    (Pass.outline_leave pass _)
                    (.cons ⟨_, hword, rfl⟩ (Pass.keeps_leave hkeeps _)) h
              | other =>
                  cases h
                  exact hstop (Pass.step_alt_of_other hfound hopener harm)
      | close =>
          cases arms with
          | nil =>
              cases h
              exact hstop (Pass.step_close_of_none hfound (Pass.opener?_of_keeps_nil hkeeps))
          | cons arm outer =>
              obtain ⟨opener, hopener, harm⟩ := Pass.opener?_of_keeps hkeeps
              exact hgo (Pass.step_close_of_arm hfound hopener harm) (Pass.outline_leave pass _)
                (Pass.keeps_leave hkeeps _) h
      | push value => exact hgo (@Pass.step_basic _ _ _ (.push value) hfound) rfl hkeeps h
      | plus => exact hgo (@Pass.step_basic _ _ _ .plus hfound) rfl hkeeps h
      | minus => exact hgo (@Pass.step_basic _ _ _ .minus hfound) rfl hkeeps h
      | equal => exact hgo (@Pass.step_basic _ _ _ .equal hfound) rfl hkeeps h
      | dump => exact hgo (@Pass.step_basic _ _ _ .dump hfound) rfl hkeeps h

/-- Linking in place comes to the same fault as linking, or to the same targets. -/
theorem linkInPlace_eq (instructions : Draft) :
    linkInPlace instructions = (link instructions).map filled := by
  cases hfault : fault? [] instructions with
  | some error =>
      have hrun := @run_of_fault? ⟨instructions, []⟩ [] (outline instructions) [] error rfl .nil
        (by rw [fault?_outline, hfault])
      rw [outline, List.length_map] at hrun
      rw [link, hfault]
      exact hrun
  | none =>
      obtain ⟨nesting, hwords⟩ := fault?_eq_none_iff.mp hfault
      obtain ⟨linked, hlinked⟩ := exists_link_eq_ok_iff.mpr ⟨nesting, hwords⟩
      obtain ⟨found, hvalues, hspans, hfills⟩ := exists_fills hwords.symm 0
      have hsame : found = linked := eq_of_map_value_of_map_span
        (hvalues.trans (map_value_of_link_eq_ok hlinked hwords.symm).symm)
        (hspans.trans (map_span_of_link_eq_ok hlinked).symm)
      have hrun := hfills.run_eq [] [] [] rfl
      rw [List.append_nil, List.append_nil, List.nil_append, List.nil_append, hsame] at hrun
      rw [hlinked, linkInPlace, hrun]
      rfl

end Blocks

end Stacklet
