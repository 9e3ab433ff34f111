import Stacklet.Proofs.Assembly.Output
import Stacklet.Proofs.Word.Patching

/-! # Writing drafts

Instructions can be written while targets may still be missing. The first one without its target
ends the writing, behind what stands before it. Linking in place leaves no target missing, so what
it gives is written like linked instructions.
-/

namespace Stacklet

/-! ## Targets -/

/-- The instruction with its target, if that is not missing. -/
def Instruction.resolved? : Instruction (Option Nat) → Option (Instruction Nat)
  | push value => some (push value)
  | plus => some plus
  | minus => some minus
  | equal => some equal
  | dump => some dump
  | cond target => target.map cond
  | alt target => target.map alt
  | close => some close

theorem Instruction.resolved?_eq_some_iff {draft : Instruction (Option Nat)}
    {instruction : Instruction Nat} :
    draft.resolved? = some instruction ↔ draft = instruction.map some := by
  constructor
  · intro h
    cases draft with
    | cond target | alt target =>
        obtain ⟨found, rfl, rfl⟩ := Option.map_eq_some_iff.mp h
        rfl
    | _ =>
        cases h
        rfl
  · rintro rfl
    cases instruction <;> rfl

namespace Blocks

/-- A draft is filled, or has a first instruction without its target. -/
theorem filled_or_missing (draft : Draft) :
    (∃ linked, draft = filled linked) ∨ ∃ linked missing span rest,
      draft = filled linked ++ ⟨missing, span⟩ :: rest ∧ missing.resolved? = none := by
  induction draft with
  | nil => exact .inl ⟨[], rfl⟩
  | cons located rest ih =>
      obtain ⟨instruction, span⟩ := located
      cases hresolved : instruction.resolved? with
      | none => exact .inr ⟨[], instruction, span, rest, rfl, hresolved⟩
      | some resolved =>
          obtain rfl := Instruction.resolved?_eq_some_iff.mp hresolved
          rcases ih with ⟨linked, rfl⟩ | ⟨linked, missing, place, behind, rfl, hmissing⟩
          · exact .inl ⟨⟨resolved, span⟩ :: linked, rfl⟩
          · exact .inr ⟨⟨resolved, span⟩ :: linked, missing, place, behind, rfl, hmissing⟩

/-- Instructions as they are read, without any target. -/
def unlinked (instructions : List (Located (Instruction Unit))) : Draft :=
  instructions.map (.map (.map fun _ => none))

theorem outline_unlinked (instructions : List (Located (Instruction Unit))) :
    outline (unlinked instructions) = instructions := by
  rw [outline, unlinked, List.map_map]
  apply List.map_id''
  rintro ⟨instruction, span⟩
  cases instruction <;> rfl

theorem linkFrom_outline {τ : Type} (index : Nat) (instructions : List (Located (Instruction τ))) :
    linkFrom index (outline instructions) = linkFrom index instructions := by
  induction instructions generalizing index with
  | nil => rfl
  | cons located rest ih =>
      obtain ⟨instruction, span⟩ := located
      have hrest : linkFrom (index + 1) (outline rest) = linkFrom (index + 1) rest := ih _
      have hcons : outline (⟨instruction, span⟩ :: rest) =
          ⟨instruction.word, span⟩ :: outline rest := rfl
      cases instruction <;> simp only [hcons, Instruction.word, Instruction.map, linkFrom, hrest]

end Blocks

/-- Linking does not look at targets. -/
theorem link_outline {τ : Type} (instructions : List (Located (Instruction τ))) :
    link (Blocks.outline instructions) = link instructions := by
  rw [link, link, Blocks.fault?_outline, Blocks.linkFrom_outline]

namespace Assembly

/-! ## Drafts -/

/-- Why a draft is not written to its end. -/
inductive DraftError where
  | emission (error : EmitError)
  /-- The target of a jump is missing. -/
  | unresolved (index : Nat) (span : Span)
deriving DecidableEq, Repr

namespace DraftError

/-- What is said about the error. -/
def message : DraftError → String
  | emission error => error.message
  | unresolved index _ => s!"Jump target of instruction {index} was never resolved"

/-- Where the error is, if it is anywhere. -/
def span? : DraftError → Option Span
  | emission error => error.span?
  | unresolved _ span => some span

end DraftError

/-- Writing that a missing target ends, too. -/
abbrev EmitDraft := EStateM DraftError Output

/-- Writing among drafts. -/
def ofEmit (emit : Emit Unit) : EmitDraft Unit :=
  EStateM.adaptExcept .emission emit

/-- Writes instructions of which the first has the given index. -/
def emitDraftFrom (index : Nat) : Blocks.Draft → EmitDraft Unit
  | [] => pure ()
  | ⟨instruction, span⟩ :: rest => do
    match instruction.resolved? with
    | none => throw (.unresolved index span)
    | some resolved => ofEmit (putLines (ofInstruction index resolved))
    emitDraftFrom (index + 1) rest

/-- Writes the whole program of a draft. -/
def emitDraft (draft : Blocks.Draft) : EmitDraft Unit := do
  ofEmit putPrologue
  emitDraftFrom 0 draft
  ofEmit (putLines epilogue)

theorem ofEmit_bind (first second : Emit Unit) :
    ofEmit (do first; second) = (do ofEmit first; ofEmit second) := by
  funext output
  change EStateM.adaptExcept DraftError.emission (EStateM.bind first fun _ => second) output =
    EStateM.bind (EStateM.adaptExcept DraftError.emission first)
      (fun _ => EStateM.adaptExcept DraftError.emission second) output
  cases hfirst : first output <;> simp only [EStateM.adaptExcept, EStateM.bind, hfirst]

/-- Instructions that have their targets are written like linked ones. -/
theorem emitDraftFrom_append (index : Nat) (linked : List (Located (Instruction Nat)))
    (rest : Blocks.Draft) :
    emitDraftFrom index (Blocks.filled linked ++ rest) = (do
      ofEmit (emitInstructions index (linked.map (·.value)))
      emitDraftFrom (index + linked.length) rest) := by
  induction linked generalizing index with
  | nil => rfl
  | cons located more ih =>
      obtain ⟨instruction, span⟩ := located
      have hresolved : (instruction.map some).resolved? = some instruction :=
        Instruction.resolved?_eq_some_iff.mpr rfl
      have hindex : index + (more.length + 1) = index + 1 + more.length := by omega
      simp only [Blocks.filled_cons, List.cons_append, emitDraftFrom, hresolved, ih, List.map_cons,
        List.length_cons, emitInstructions, ofEmit_bind, bind_assoc, hindex]

/-- A draft without a missing target is written like linked instructions. -/
theorem emitDraft_filled (linked : List (Located (Instruction Nat))) :
    emitDraft (Blocks.filled linked) = ofEmit (emitWords linked) := by
  have hwhole := emitDraftFrom_append 0 linked []
  rw [List.append_nil] at hwhole
  simp only [emitDraft, hwhole, emitDraftFrom, emitWords, ofEmit_bind, bind_assoc, pure_bind]

/-- With a missing target it is written up to there. -/
theorem emitDraft_missing {missing : Instruction (Option Nat)} (h : missing.resolved? = none)
    (linked : List (Located (Instruction Nat))) (span : Span) (rest : Blocks.Draft) :
    emitDraft (Blocks.filled linked ++ ⟨missing, span⟩ :: rest) = (do
      ofEmit (putLines (prologue ++ ofInstructions 0 (linked.map (·.value))))
      throw (.unresolved linked.length span)) := by
  have hend (error : DraftError) (next : Unit → EmitDraft Unit) :
      (throw error >>= next) = throw error := rfl
  simp only [emitDraft, emitDraftFrom_append, emitDraftFrom, h, putPrologue_eq,
    emitInstructions_eq, putLines_append, ofEmit_bind, bind_assoc, hend, Nat.zero_add]

/-! ## Linked in place -/

/-- A missing target is the only end of writing that linked instructions do not have. -/
theorem ofEmit_ne_unresolved (emit : Emit Unit) (output last : Output) (index : Nat) (span : Span) :
    ofEmit emit output ≠ .error (.unresolved index span) last := by
  cases hemit : emit output <;> simp [ofEmit, EStateM.adaptExcept, hemit]

theorem ofEmit_emitWords_unlimited (linked : List (Located (Instruction Nat))) :
    ofEmit (emitWords linked) ⟨.empty, none⟩ =
      .ok () ⟨(render (ofWords linked)).toByteArray, none⟩ := by
  simp only [ofEmit, EStateM.adaptExcept, emitWords_eq, emit_of_none, putLines, put_unlimited,
    ByteArray.empty_append]

/-- Where there is room, a draft is written to its end just if it has all its targets. -/
theorem emitDraft_eq_ok_iff {draft : Blocks.Draft} {output : Output} :
    emitDraft draft ⟨.empty, none⟩ = .ok () output ↔ ∃ linked,
      draft = Blocks.filled linked ∧ output = ⟨(render (ofWords linked)).toByteArray, none⟩ := by
  constructor
  · intro h
    rcases Blocks.filled_or_missing draft with ⟨linked, rfl⟩ | ⟨linked, _, span, rest, rfl, hmissing⟩
    · rw [emitDraft_filled, ofEmit_emitWords_unlimited] at h
      cases h
      exact ⟨linked, rfl, rfl⟩
    · rw [emitDraft_missing hmissing] at h
      cases h
  · rintro ⟨linked, rfl, rfl⟩
    rw [emitDraft_filled, ofEmit_emitWords_unlimited]

/-- Otherwise the error is about the first instruction without its target, and what stands before that
instruction has been written. -/
theorem emitDraft_error {draft : Blocks.Draft} {error : DraftError} {last : Output}
    (h : emitDraft draft ⟨.empty, none⟩ = .error error last) :
    ∃ linked missing span rest, draft = Blocks.filled linked ++ ⟨missing, span⟩ :: rest ∧
      missing.resolved? = none ∧ error.span? = some span ∧
      error.message = s!"Jump target of instruction {linked.length} was never resolved" ∧
      last = ⟨(render (prologue ++ ofInstructions 0 (linked.map (·.value)))).toByteArray, none⟩ := by
  rcases Blocks.filled_or_missing draft with
    ⟨linked, rfl⟩ | ⟨linked, missing, span, rest, rfl, hmissing⟩
  · rw [emitDraft_filled, ofEmit_emitWords_unlimited] at h
    cases h
  · rw [emitDraft_missing hmissing] at h
    cases h
    refine ⟨linked, missing, span, rest, rfl, hmissing, rfl, rfl, ?_⟩
    rw [ByteArray.empty_append]
    rfl

theorem exists_filled_of_linkInPlace {draft program : Blocks.Draft}
    (h : Blocks.linkInPlace draft = .ok program) :
    ∃ linked, link draft = .ok linked ∧ program = Blocks.filled linked := by
  rw [Blocks.linkInPlace_eq] at h
  cases hlink : link draft with
  | error error =>
      rw [hlink] at h
      cases h
  | ok linked =>
      rw [hlink] at h
      cases h
      exact ⟨linked, rfl, rfl⟩

theorem linkInPlace_unlinked {instructions : List (Located (Instruction Unit))} :
    Blocks.linkInPlace (Blocks.unlinked instructions) =
      (link instructions).map Blocks.filled := by
  rw [Blocks.linkInPlace_eq, ← link_outline, Blocks.outline_unlinked]

end Assembly

end Stacklet
