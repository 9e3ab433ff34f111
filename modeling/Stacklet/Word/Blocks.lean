import Stacklet.Word

/-! # Blocks of words

A block is opened by `if`, may go over to its other arm once with `else`, and is closed by `end`.
Looking from the left finds the first word that cannot be part of such blocks; looking from the
right gives every opener the place where its jump goes, which is right behind the word that answers
it.
-/

namespace Stacklet

/-- Why words do not form blocks. -/
inductive BlockError where
  | unmatchedEnd
  | unmatchedElse
  | elseAfterElse
  /-- An `end` for something that opened no block. -/
  | mismatchedEnd (found : Instruction Unit)
  | unclosed
deriving DecidableEq, Repr

/-- What is said about the error. -/
def BlockError.message : BlockError → String
  | unmatchedEnd => "`end` without an open `if` or `else` block"
  | unmatchedElse => "`else` without an open `if` block"
  | elseAfterElse => "`else` can only follow an `if` block, not another `else`"
  | mismatchedEnd found => s!"`end` can only close `if` or `else` blocks, found `{found.text}`"
  | unclosed => "Block is never closed with `end`"

/-- The arm of a block that is open. -/
inductive Arm where
  | first
  | other
deriving DecidableEq, Repr

namespace Blocks

variable {τ : Type}

/-- The first fault of instructions behind the given open arms, innermost first. -/
def fault? : (opened : List (Located Arm)) → List (Located (Instruction τ)) →
    Option (Located BlockError)
  | opened, [] => opened.head?.map fun arm => ⟨.unclosed, arm.span⟩
  | opened, ⟨instruction, span⟩ :: rest =>
    match instruction, opened with
    | .cond _, _ => fault? (⟨.first, span⟩ :: opened) rest
    | .alt _, ⟨.first, _⟩ :: outer => fault? (⟨.other, span⟩ :: outer) rest
    | .alt _, ⟨.other, _⟩ :: _ => some ⟨.elseAfterElse, span⟩
    | .alt _, [] => some ⟨.unmatchedElse, span⟩
    | .close, _ :: outer => fault? outer rest
    | .close, [] => some ⟨.unmatchedEnd, span⟩
    | _, _ => fault? opened rest

/-- Instructions with their targets, and the places behind the words that close blocks opened
further to the left, innermost first. -/
structure Linked where
  closers : List Nat
  instructions : List (Located (Instruction Nat))
deriving DecidableEq, Repr

/-- Links instructions of which the first has the given index. -/
def linkFrom (index : Nat) : List (Located (Instruction τ)) → Linked
  | [] => ⟨[], []⟩
  | ⟨instruction, span⟩ :: rest =>
    let ⟨closers, linked⟩ := linkFrom (index + 1) rest
    let target := closers.headD 0
    match instruction with
    | .push value => ⟨closers, ⟨.push value, span⟩ :: linked⟩
    | .plus => ⟨closers, ⟨.plus, span⟩ :: linked⟩
    | .minus => ⟨closers, ⟨.minus, span⟩ :: linked⟩
    | .equal => ⟨closers, ⟨.equal, span⟩ :: linked⟩
    | .dump => ⟨closers, ⟨.dump, span⟩ :: linked⟩
    | .cond _ => ⟨closers.tail, ⟨.cond target, span⟩ :: linked⟩
    | .alt _ => ⟨(index + 1) :: closers.tail, ⟨.alt target, span⟩ :: linked⟩
    | .close => ⟨(index + 1) :: closers, ⟨.close, span⟩ :: linked⟩

end Blocks

/-- Gives every jump its target, whatever it had before. A target is the index behind the `else` or
`end` that answers the opener. -/
def link {τ : Type} (instructions : List (Located (Instruction τ))) :
    Except (Located BlockError) (List (Located (Instruction Nat))) :=
  match Blocks.fault? [] instructions with
  | some error => .error error
  | none => .ok (Blocks.linkFrom 0 instructions).instructions

end Stacklet
