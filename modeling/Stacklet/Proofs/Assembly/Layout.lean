import Stacklet.Compile
import Stacklet.Proofs.Assembly.OfTree
import Stacklet.Proofs.Tree.Layout

/-! # Compilation and layout

Places are carried through every phase, and nothing is decided by them. The steps that a tree is
written in are those of the tree without its places, and linking commutes with forgetting places. So
the text of a program, and what a report says without its snippets, are determined by the values of
the tokens or by the words.
-/

namespace Stacklet

namespace Assembly

/-! ## Steps of a tree -/

/-- The line of a step, or the message of its fault. -/
def Step.said (step : Step) : Except String Line :=
  step.mapError EmitError.message

/-- Steps that are the same up to the places of their faults. -/
def SaySame (left right : List Step) : Prop :=
  left.map Step.said = right.map Step.said

variable {rest other : List Step}

theorem SaySame.write (h : SaySame rest other) (template : List Line) :
    SaySame (write template rest) (write template other) := by
  unfold SaySame Assembly.write
  rw [List.map_append, List.map_append, h]

theorem SaySame.error {fault same : EmitError} (h : SaySame rest other)
    (hmessage : fault.message = same.message) :
    SaySame (.error fault :: rest) (.error same :: other) :=
  congrArg₂ List.cons (congrArg Except.error hmessage) h

theorem saySame_ofExpr (expr : Expr) (h : SaySame rest other) :
    SaySame (ofExpr expr rest) (ofExpr expr.unplaced other) := by
  fun_induction ofExpr expr rest generalizing other with
  | case1 value span rest cell hcell =>
      rw [Expr.unplaced, ofExpr, hcell]
      exact h.write (push cell)
  | case2 value span rest hcell =>
      rw [Expr.unplaced, ofExpr, hcell]
      exact h.error rfl
  | case3 left op right rest template htemplate ihRight ihLeft =>
      have htemplate' : operator? op.unplaced.value = some template := htemplate
      rw [Expr.unplaced, ofExpr, htemplate']
      exact ihLeft (ihRight (h.write template))
  | case4 left op right rest htemplate =>
      have htemplate' : operator? op.unplaced.value = none := htemplate
      rw [Expr.unplaced, ofExpr, htemplate']
      exact h.error rfl
  | case5 expr rest hliteral hbinary =>
      cases expr with
      | literal value span => exact absurd rfl (hliteral value span)
      | binary left op right => exact absurd rfl (hbinary left op right)
      | _ =>
          rw [Expr.unplaced]
          exact h.error rfl

mutual

theorem labels_unplaced : ∀ stmt : Stmt, labels stmt.unplaced = labels stmt
  | .block body => by rw [Stmt.unplaced, labels, labels, labelsOf_unplaced body]
  | .ifThen _ thenBranch => by rw [Stmt.unplaced, labels, labels, labels_unplaced thenBranch]
  | .ifElse _ thenBranch elseBranch => by
      rw [Stmt.unplaced, labels, labels, labels_unplaced thenBranch, labels_unplaced elseBranch]
  | .varDef _ initializer => by
      cases initializer <;> rw [Stmt.unplaced] <;> rfl
  | .ret _ value => by
      cases value <;> rw [Stmt.unplaced] <;> rfl
  | .expression _ | .print _ | .whileLoop _ _ | .funDef _ | .classDef _ _ => by
      rw [Stmt.unplaced]
      rfl

theorem labelsOf_unplaced : ∀ body : List Stmt, labelsOf (Stmt.unplacedAll body) = labelsOf body
  | [] => by rw [Stmt.unplacedAll]
  | stmt :: more => by
      rw [Stmt.unplacedAll, labelsOf, labelsOf, labels_unplaced stmt, labelsOf_unplaced more]

end

mutual

theorem saySame_ofStmt (number : Nat) {rest other : List Step} (h : SaySame rest other) :
    ∀ stmt : Stmt, SaySame (ofStmt number stmt rest) (ofStmt number stmt.unplaced other)
  | .print expr => by
      rw [Stmt.unplaced, ofStmt, ofStmt]
      exact saySame_ofExpr expr (h.write dump)
  | .block body => by
      rw [Stmt.unplaced, ofStmt, ofStmt]
      exact saySame_ofStmts number h body
  | .ifThen condition thenBranch => by
      rw [Stmt.unplaced, ofStmt, ofStmt]
      exact saySame_ofExpr condition
        ((saySame_ofStmt _ (h.write _) thenBranch).write _)
  | .ifElse condition thenBranch elseBranch => by
      rw [Stmt.unplaced, ofStmt, ofStmt, labels_unplaced]
      have helse := saySame_ofStmt (number + 2 + labels thenBranch)
        (h.write [.label (.branch number)]) elseBranch
      exact saySame_ofExpr condition ((saySame_ofStmt _ (helse.write _) thenBranch).write _)
  | .varDef name initializer => by
      cases initializer <;> rw [Stmt.unplaced] <;> exact h.error rfl
  | .ret keyword value => by
      cases value <;> rw [Stmt.unplaced] <;> exact h.error rfl
  | .expression _ | .whileLoop _ _ | .funDef _ | .classDef _ _ => by
      rw [Stmt.unplaced]
      exact h.error rfl

theorem saySame_ofStmts (number : Nat) {rest other : List Step} (h : SaySame rest other) :
    ∀ body : List Stmt,
      SaySame (ofStmts number body rest) (ofStmts number (Stmt.unplacedAll body) other)
  | [] => by
      rw [Stmt.unplacedAll]
      exact h
  | stmt :: more => by
      rw [Stmt.unplacedAll, ofStmts, ofStmts, labels_unplaced]
      exact saySame_ofStmt number (saySame_ofStmts _ h more) stmt

end

theorem ofSteps_of_saySame {left right : List Step} (h : SaySame left right) :
    (Emission.ofSteps left).lines = (Emission.ofSteps right).lines ∧
      (Emission.ofSteps left).fault.map EmitError.message =
        (Emission.ofSteps right).fault.map EmitError.message := by
  induction left generalizing right with
  | nil =>
      obtain rfl := List.map_eq_nil_iff.mp h.symm
      exact ⟨rfl, rfl⟩
  | cons step left ih =>
      obtain ⟨same, right, rfl, hsaid, hrest⟩ := List.map_eq_cons_iff.mp h.symm
      cases step with
      | ok line =>
          cases same with
          | ok other =>
              cases hsaid
              obtain ⟨hlines, hfault⟩ := ih hrest.symm
              exact ⟨congrArg (line :: ·) hlines, hfault⟩
          | error fault => cases hsaid
      | error fault =>
          cases same with
          | ok other => cases hsaid
          | error other => exact ⟨rfl, congrArg some (Except.error.inj hsaid).symm⟩

/-- Trees that are the same up to places are written alike, up to the same message. -/
theorem ofTree_of_unplacedAll {left right : List Stmt}
    (h : Stmt.unplacedAll left = Stmt.unplacedAll right) :
    (ofTree left).lines = (ofTree right).lines ∧
      (ofTree left).fault.map EmitError.message =
        (ofTree right).fault.map EmitError.message := by
  have hsay : ∀ body : List Stmt,
      SaySame (write prologue (ofStmts 0 body (write epilogue [])))
        (write prologue (ofStmts 0 (Stmt.unplacedAll body) (write epilogue []))) :=
    fun body => (saySame_ofStmts 0 rfl body).write prologue
  apply ofSteps_of_saySame
  exact (hsay left).trans (h ▸ (hsay right).symm)

end Assembly

/-! ## Words -/

theorem map_unplaced_of_map_value {α : Type} {left right : List (Located α)}
    (h : left.map (·.value) = right.map (·.value)) :
    left.map Located.unplaced = right.map Located.unplaced := by
  have hvalues : ∀ list : List (Located α),
      list.map Located.unplaced = (list.map (·.value)).map fun value => ⟨value, ⟨0, 0, 0⟩⟩ := by
    intro list
    rw [List.map_map]
    rfl
  rw [hvalues, hvalues, h]

theorem map_value_of_map_unplaced {α : Type} {left right : List (Located α)}
    (h : left.map Located.unplaced = right.map Located.unplaced) :
    left.map (·.value) = right.map (·.value) := by
  have hvalues : ∀ list : List (Located α),
      list.map (·.value) = (list.map Located.unplaced).map (·.value) := by
    intro list
    rw [List.map_map]
    rfl
  rw [hvalues left, h, ← hvalues right]

theorem unknownWords_unplaced (words : List (Located (List Char))) :
    unknownWords (words.map Located.unplaced) = (unknownWords words).map Located.unplaced := by
  unfold unknownWords
  rw [List.filterMap_map, List.map_filterMap]
  congr 1
  funext word
  simp only [Function.comp, Located.unplaced]
  cases Instruction.ofWord? word.value <;> rfl

namespace Blocks

variable {τ : Type}

theorem fault?_unplaced (opened : List (Located Arm))
    (instructions : List (Located (Instruction τ))) :
    fault? (opened.map Located.unplaced) (instructions.map Located.unplaced) =
      (fault? opened instructions).map Located.unplaced := by
  induction instructions generalizing opened with
  | nil => cases opened <;> rfl
  | cons head rest ih =>
      obtain ⟨instruction, span⟩ := head
      cases instruction with
      | cond target => exact ih (⟨.first, span⟩ :: opened)
      | alt target =>
          cases opened with
          | nil => rfl
          | cons arm outer =>
              obtain ⟨_ | _, place⟩ := arm
              · exact ih (⟨.other, span⟩ :: outer)
              · rfl
      | close =>
          cases opened with
          | nil => rfl
          | cons arm outer => exact ih outer
      | _ => exact ih opened

theorem linkFrom_unplaced (index : Nat) (instructions : List (Located (Instruction τ))) :
    linkFrom index (instructions.map Located.unplaced) =
      ⟨(linkFrom index instructions).closers,
        (linkFrom index instructions).instructions.map Located.unplaced⟩ := by
  induction instructions generalizing index with
  | nil => rfl
  | cons head rest ih =>
      obtain ⟨instruction, span⟩ := head
      cases instruction <;> simp only [List.map_cons, Located.unplaced, linkFrom, ih]

end Blocks

theorem link_unplaced {τ : Type} (instructions : List (Located (Instruction τ))) :
    link (instructions.map Located.unplaced) =
      ((link instructions).map (List.map Located.unplaced)).mapError Located.unplaced := by
  have hfault := Blocks.fault?_unplaced [] instructions
  rw [List.map_nil] at hfault
  unfold link
  rw [hfault, Blocks.linkFrom_unplaced]
  cases Blocks.fault? [] instructions <;> rfl

theorem readWords_unplaced {left right : List Char}
    (h : (words 1 0 left).map (·.value) = (words 1 0 right).map (·.value)) :
    ((readWords left).map (List.map Located.unplaced)).mapError (List.map Located.unplaced) =
      ((readWords right).map (List.map Located.unplaced)).mapError (List.map Located.unplaced) := by
  have hwords := map_unplaced_of_map_value h
  have hunknown : (unknownWords (words 1 0 left)).map Located.unplaced =
      (unknownWords (words 1 0 right)).map Located.unplaced := by
    rw [← unknownWords_unplaced, ← unknownWords_unplaced, hwords]
  have hempty : (unknownWords (words 1 0 left)).isEmpty =
      (unknownWords (words 1 0 right)).isEmpty := by
    simpa only [List.isEmpty_map] using congrArg List.isEmpty hunknown
  have hread : ∀ read : List (Located (List Char)),
      (read.filterMap fun word =>
        (Instruction.ofWord? word.value).map (⟨·, word.span⟩)).map Located.unplaced =
      (read.map Located.unplaced).filterMap fun word =>
        (Instruction.ofWord? word.value).map (⟨·, word.span⟩) := by
    intro read
    rw [List.filterMap_map, List.map_filterMap]
    congr 1
    funext word
    simp only [Function.comp, Located.unplaced]
    cases Instruction.ofWord? word.value <;> rfl
  unfold readWords
  simp only [hempty]
  split
  · exact congrArg Except.ok (by rw [hread, hread, hwords])
  · exact congrArg Except.error hunknown

/-! ## Compilations -/

theorem both_of_map_eq {ε δ α β : Type} {f : α → β} {g : ε → δ} {left right : Except ε α}
    (h : (left.map f).mapError g = (right.map f).mapError g) :
    (∃ value other, left = .ok value ∧ right = .ok other ∧ f value = f other) ∨
      ∃ error other, left = .error error ∧ right = .error other ∧ g error = g other := by
  cases left <;> cases right
  · exact .inr ⟨_, _, rfl, rfl, Except.error.inj h⟩
  · cases h
  · cases h
  · exact .inl ⟨_, _, rfl, rfl, Except.ok.inj h⟩

/-- What a compilation comes to, wherever things stand in the source: the text of the program, or
the heading and the messages of the report. -/
def Compilation.verdict (compilation : Compilation) : Except (String × List String) String :=
  match compilation.result with
  | .ok lines => .ok (Assembly.render lines)
  | .error error => .error (error.report.heading, error.report.messages)

theorem getLast?_of_scan {text : List Char} {tokens : List (Located Token)}
    (h : scan text = .ok tokens) : (tokens.map (·.value)).getLast? = some .endOfInput := by
  unfold scan Lexer.exhaust at h
  split at h
  · cases h
    simp [Lexer.tokens, Lexer.ofText]
  · cases h

theorem verdict_compileTree {left right : List Char} {tokens others : List (Located Token)}
    (hleft : scan left = .ok tokens) (hright : scan right = .ok others)
    (hvalues : tokens.map (·.value) = others.map (·.value)) :
    (compileTree left).verdict = (compileTree right).verdict := by
  unfold compileTree Compilation.verdict
  rw [hleft, hright]
  rcases parse_determined (getLast?_of_scan hleft) with ⟨tree, hparse⟩ | ⟨error, hparse⟩
  · obtain ⟨statements, hstatements, htree⟩ := hparse tokens rfl
    obtain ⟨same, hsame, hsameTree⟩ := hparse others hvalues.symm
    obtain ⟨hlines, hfault⟩ := Assembly.ofTree_of_unplacedAll (htree.trans hsameTree.symm)
    simp only [hstatements, hsame]
    generalize Assembly.ofTree statements = emission at hlines hfault ⊢
    generalize Assembly.ofTree same = other at hlines hfault ⊢
    obtain ⟨lines, _ | fault⟩ := emission <;> obtain ⟨otherLines, _ | otherFault⟩ := other
    · cases hlines
      rfl
    · cases hfault
    · cases hfault
    · simp only [CompileError.report, CompileError.heading, CompileError.diagnostics,
        Report.messages, List.map_cons, List.map_nil, Option.some.inj hfault]
  · obtain ⟨failure, hfailure, herror⟩ := hparse tokens rfl
    obtain ⟨same, hsame, hsameError⟩ := hparse others hvalues.symm
    simp only [hfailure, hsame, CompileError.report, CompileError.heading,
      CompileError.diagnostics, Report.messages, List.map_cons, List.map_nil, herror, hsameError]

theorem verdict_compileFlat {left right : List Char}
    (hwords : (words 1 0 left).map (·.value) = (words 1 0 right).map (·.value)) :
    (compileFlat left).verdict = (compileFlat right).verdict := by
  unfold compileFlat Compilation.verdict
  rcases both_of_map_eq (readWords_unplaced hwords) with
    ⟨read, other, hread, hother, hsame⟩ | ⟨errors, others, herrors, hothers, hsame⟩
  · rw [hread, hother]
    have hlink : ((link read).map (List.map Located.unplaced)).mapError Located.unplaced =
        ((link other).map (List.map Located.unplaced)).mapError Located.unplaced := by
      rw [← link_unplaced, ← link_unplaced, hsame]
    rcases both_of_map_eq hlink with
      ⟨linked, same, hlinked, hsame, hinstructions⟩ | ⟨error, same, herror, hsame, hvalue⟩
    · simp only [hlinked, hsame, Assembly.ofWords, map_value_of_map_unplaced hinstructions]
    · have hvalues : error.value = same.value := (Located.mk.inj hvalue).1
      simp only [herror, hsame, hvalues, CompileError.report, CompileError.heading,
        CompileError.diagnostics, Report.messages, List.map_cons, List.map_nil]
  · rw [herrors, hothers]
    have hmessages := congrArg (List.map WordError.message) (map_value_of_map_unplaced hsame)
    rw [List.map_map, List.map_map] at hmessages
    simp only [CompileError.report, CompileError.heading, CompileError.diagnostics,
      Report.messages, List.map_map]
    exact congrArg (fun messages => Except.error ("Lexical error", messages)) hmessages

/-- Compilation depends on the values of the tokens, or on the words, and on nothing else: sources
that have them in common are compiled to the same text, or fail under the same heading with the same
messages. -/
theorem compile_layout_independent (left right : Source) :
    (∀ tokens others, scan left.text = .ok tokens → scan right.text = .ok others →
      tokens.map (·.value) = others.map (·.value) →
      (compile left.text .tree).verdict = (compile right.text .tree).verdict) ∧
    ((words 1 0 left.text).map (·.value) = (words 1 0 right.text).map (·.value) →
      (compile left.text .flat).verdict = (compile right.text .flat).verdict) := by
  constructor
  · intro tokens others hleft hright hvalues
    exact verdict_compileTree hleft hright hvalues
  · intro hwords
    exact verdict_compileFlat hwords

/-- A program on one line and on several; to the words, both end with an unknown one. -/
theorem compile_layout_independent_spread :
    let left : Source := ⟨"one line", "print 1 ;".toList⟩
    let right : Source := ⟨"several", " print\n\t1\n;\n".toList⟩
    (compile left.text .tree).result.isOk = true ∧
    (compile left.text .tree).verdict = (compile right.text .tree).verdict ∧
    (compile left.text .flat).result.isOk = false ∧
    (compile left.text .flat).verdict = (compile right.text .flat).verdict := by
  intro left right
  have hok : ∀ {text : List Char}, (scan text).isOk = true → ∃ tokens, scan text = .ok tokens := by
    intro text h
    cases hscan : scan text with
    | ok tokens => exact ⟨tokens, rfl⟩
    | error errors =>
        rw [hscan] at h
        cases h
  have hvalues : (scan left.text).toOption.map (List.map (·.value)) =
      (scan right.text).toOption.map (List.map (·.value)) := by
    decide +kernel
  obtain ⟨tokens, hleft⟩ := hok (show (scan left.text).isOk = true by decide +kernel)
  obtain ⟨others, hright⟩ := hok (show (scan right.text).isOk = true by decide +kernel)
  rw [hleft, hright] at hvalues
  obtain ⟨htree, hflat⟩ := compile_layout_independent left right
  refine ⟨by decide +kernel, htree tokens others hleft hright (Option.some.inj hvalues),
    by decide +kernel, ?_⟩
  exact hflat (by decide +kernel)

end Stacklet
