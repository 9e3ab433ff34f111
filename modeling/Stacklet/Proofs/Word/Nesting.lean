import Stacklet.Word.Blocks

/-! # Words as nested blocks

A balanced sequence of words is read as a tree: words that only work on the stack, and conditional
blocks with one arm or two, each with what follows it. The trees are the derivations of a grammar
that is unambiguous, also in front of a word that closes an arm.
-/

namespace Stacklet

/-- Replaces the targets of an instruction. -/
def Instruction.map {τ σ : Type} (f : τ → σ) : Instruction τ → Instruction σ
  | push value => push value
  | plus => plus
  | minus => minus
  | equal => equal
  | dump => dump
  | cond target => cond (f target)
  | alt target => alt (f target)
  | close => close

/-- The word of an instruction, whatever its target. -/
def Instruction.word {τ : Type} (instruction : Instruction τ) : Instruction Unit :=
  instruction.map fun _ => ()

theorem word_eq_self (instruction : Instruction Unit) :
    instruction.word = instruction := by
  cases instruction <;> rfl

/-- The words that neither open nor close a block. -/
inductive Basic where
  | push (value : Cell)
  | plus
  | minus
  | equal
  | dump
deriving DecidableEq, Repr

/-- The instruction that a basic word is. -/
def Basic.instruction {τ : Type} : Basic → Instruction τ
  | push value => .push value
  | plus => .plus
  | minus => .minus
  | equal => .equal
  | dump => .dump

@[simp] theorem Basic.word_instruction {τ : Type} (basic : Basic) :
    (basic.instruction : Instruction τ).word = basic.instruction := by
  cases basic <;> rfl

/-- Sequences of words in which every block is closed. -/
inductive Nesting where
  | done
  | basic (word : Basic) (rest : Nesting)
  | ifEnd (thenPart rest : Nesting)
  | ifElse (thenPart elsePart rest : Nesting)
deriving DecidableEq, Repr

namespace Nesting

/-- The words of a nesting from left to right. -/
def words : Nesting → List (Instruction Unit)
  | done => []
  | basic word rest => word.instruction :: rest.words
  | ifEnd thenPart rest => .cond () :: (thenPart.words ++ .close :: rest.words)
  | ifElse thenPart elsePart rest =>
    .cond () :: (thenPart.words ++ .alt () :: (elsePart.words ++ .close :: rest.words))

/-- How many words a nesting has. -/
def size (nesting : Nesting) : Nat :=
  nesting.words.length

/-- The instructions of a nesting whose first word has the given index. The opener of an arm goes to
the place behind the word that closes the arm. -/
def linked (index : Nat) : Nesting → List (Instruction Nat)
  | done => []
  | basic word rest => word.instruction :: rest.linked (index + 1)
  | ifEnd thenPart rest =>
    let stop := index + 1 + thenPart.size
    .cond (stop + 1) :: (thenPart.linked (index + 1) ++ .close :: rest.linked (stop + 1))
  | ifElse thenPart elsePart rest =>
    let middle := index + 1 + thenPart.size
    let stop := middle + 1 + elsePart.size
    .cond (middle + 1) :: (thenPart.linked (index + 1) ++ .alt (stop + 1) ::
      (elsePart.linked (middle + 1) ++ .close :: rest.linked (stop + 1)))

@[simp] theorem size_basic (word : Basic) (rest : Nesting) :
    (basic word rest).size = rest.size + 1 := rfl

@[simp] theorem size_ifEnd (thenPart rest : Nesting) :
    (ifEnd thenPart rest).size = thenPart.size + rest.size + 2 := by
  simp only [size, words, List.length_cons, List.length_append]
  omega

@[simp] theorem size_ifElse (thenPart elsePart rest : Nesting) :
    (ifElse thenPart elsePart rest).size = thenPart.size + elsePart.size + rest.size + 3 := by
  simp only [size, words, List.length_cons, List.length_append]
  omega

@[simp] theorem map_word_linked (nesting : Nesting) (index : Nat) :
    (nesting.linked index).map Instruction.word = nesting.words := by
  induction nesting generalizing index with
  | done => rfl
  | basic word rest ih => simp [linked, words, ih]
  | ifEnd thenPart rest ihThen ih =>
      simp [linked, words, ihThen, ih, Instruction.word, Instruction.map]
  | ifElse thenPart elsePart rest ihThen ihElse ih =>
      simp [linked, words, ihThen, ihElse, ih, Instruction.word, Instruction.map]

@[simp] theorem length_linked (nesting : Nesting) (index : Nat) :
    (nesting.linked index).length = nesting.size := by
  rw [size, ← map_word_linked nesting index, List.length_map]

/-- One nesting behind another. -/
def append : Nesting → Nesting → Nesting
  | done, behind => behind
  | basic word rest, behind => basic word (rest.append behind)
  | ifEnd thenPart rest, behind => ifEnd thenPart (rest.append behind)
  | ifElse thenPart elsePart rest, behind => ifElse thenPart elsePart (rest.append behind)

theorem words_append (front behind : Nesting) :
    (front.append behind).words = front.words ++ behind.words := by
  induction front with
  | done => rfl
  | basic word rest ih => simp [append, words, ih]
  | ifEnd thenPart rest ihThen ih => simp [append, words, ih]
  | ifElse thenPart elsePart rest ihThen ihElse ih => simp [append, words, ih]

end Nesting

/-- The words that close an arm of a block. -/
def Instruction.IsDelimiter {τ : Type} : Instruction τ → Prop
  | alt _ | close => True
  | _ => False

@[simp] theorem Instruction.isDelimiter_close {τ : Type} :
    (close : Instruction τ).IsDelimiter := trivial

@[simp] theorem Instruction.isDelimiter_alt {τ : Type} (target : τ) :
    (alt target).IsDelimiter := trivial

theorem Instruction.isDelimiter_word {τ : Type} {instruction : Instruction τ} :
    instruction.word.IsDelimiter ↔ instruction.IsDelimiter := by
  cases instruction <;> exact Iff.rfl

theorem Basic.not_isDelimiter {τ : Type} (basic : Basic) :
    ¬ (basic.instruction : Instruction τ).IsDelimiter := by
  cases basic <;> exact id

theorem Basic.instruction_injective {τ : Type} :
    Function.Injective (Basic.instruction : Basic → Instruction τ) := by
  intro left right h
  cases left <;> cases right <;> simp_all [Basic.instruction]

theorem Basic.instruction_ne_cond {τ : Type} (basic : Basic) (target : τ) :
    basic.instruction ≠ .cond target := by
  cases basic <;> exact nofun

namespace Nesting

open Instruction

/-- A nesting that is not empty starts with no word that closes an arm. -/
theorem not_isDelimiter_head {nesting : Nesting} {first : Instruction Unit}
    {rest : List (Instruction Unit)} (h : nesting.words = first :: rest) :
    ¬ first.IsDelimiter := by
  cases nesting with
  | done => exact nomatch h
  | basic word rest =>
      obtain ⟨rfl, -⟩ := List.cons.inj h
      exact word.not_isDelimiter
  | ifEnd thenPart rest =>
      obtain ⟨rfl, -⟩ := List.cons.inj h
      exact id
  | ifElse thenPart elsePart rest =>
      obtain ⟨rfl, -⟩ := List.cons.inj h
      exact id

/-- What stands before a word that closes an arm can be read in one way only. -/
theorem words_append_delimiter_inj {left right : Nesting} {d e : Instruction Unit}
    {behind after : List (Instruction Unit)} (hd : d.IsDelimiter) (he : e.IsDelimiter)
    (h : left.words ++ d :: behind = right.words ++ e :: after) :
    left = right ∧ d = e ∧ behind = after := by
  induction left generalizing right d e behind after with
  | done =>
      -- No nesting begins with a delimiter, so there is nothing on the right side either.
      cases hright : right.words with
      | nil =>
          rw [hright] at h
          obtain ⟨rfl, rfl⟩ := List.cons.inj h
          cases right <;> first | exact ⟨rfl, rfl, rfl⟩ | exact nomatch hright
      | cons first rest =>
          rw [hright] at h
          obtain ⟨rfl, -⟩ := List.cons.inj h
          exact absurd hd (not_isDelimiter_head hright)
  | basic word rest ih =>
      cases right with
      | done =>
          obtain ⟨rfl, -⟩ := List.cons.inj h
          exact absurd he word.not_isDelimiter
      | basic word' rest' =>
          obtain ⟨hword, hrest⟩ := List.cons.inj h
          obtain ⟨rfl, rfl, rfl⟩ := ih hd he hrest
          obtain rfl := Basic.instruction_injective hword
          exact ⟨rfl, rfl, rfl⟩
      | ifEnd thenPart rest' => exact absurd (List.cons.inj h).1 (word.instruction_ne_cond _)
      | ifElse thenPart elsePart rest' =>
          exact absurd (List.cons.inj h).1 (word.instruction_ne_cond _)
  | ifEnd thenPart rest ihThen ih =>
      cases right with
      | done =>
          obtain ⟨rfl, -⟩ := List.cons.inj h
          exact he.elim
      | basic word' rest' => exact absurd (List.cons.inj h).1.symm (word'.instruction_ne_cond _)
      | ifEnd thenPart' rest' =>
          simp only [words, List.cons_append, List.append_assoc, List.cons.injEq, true_and] at h
          obtain ⟨rfl, -, hrest⟩ := ihThen isDelimiter_close isDelimiter_close h
          obtain ⟨rfl, rfl, rfl⟩ := ih hd he hrest
          exact ⟨rfl, rfl, rfl⟩
      | ifElse thenPart' elsePart' rest' =>
          simp only [words, List.cons_append, List.append_assoc, List.cons.injEq, true_and] at h
          -- The arms would be equal and then end at different delimiters.
          exact nomatch (ihThen isDelimiter_close (isDelimiter_alt ()) h).2.1
  | ifElse thenPart elsePart rest ihThen ihElse ih =>
      cases right with
      | done =>
          obtain ⟨rfl, -⟩ := List.cons.inj h
          exact he.elim
      | basic word' rest' => exact absurd (List.cons.inj h).1.symm (word'.instruction_ne_cond _)
      | ifEnd thenPart' rest' =>
          simp only [words, List.cons_append, List.append_assoc, List.cons.injEq, true_and] at h
          exact nomatch (ihThen (isDelimiter_alt ()) isDelimiter_close h).2.1
      | ifElse thenPart' elsePart' rest' =>
          simp only [words, List.cons_append, List.append_assoc, List.cons.injEq, true_and] at h
          obtain ⟨rfl, -, hrest⟩ := ihThen (isDelimiter_alt ()) (isDelimiter_alt ()) h
          obtain ⟨rfl, -, hrest⟩ := ihElse isDelimiter_close isDelimiter_close hrest
          obtain ⟨rfl, rfl, rfl⟩ := ih hd he hrest
          exact ⟨rfl, rfl, rfl⟩

/-- A sequence of words is read in one way at most. -/
theorem words_injective : Function.Injective words := by
  intro left right h
  have hclosed : left.words ++ [.close] = right.words ++ [.close] := by rw [h]
  exact (words_append_delimiter_inj isDelimiter_close isDelimiter_close hclosed).1

end Nesting

end Stacklet
