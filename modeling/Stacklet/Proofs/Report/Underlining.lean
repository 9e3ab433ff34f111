import Stacklet.Compile
import Stacklet.Proofs.Assembly.Unsupported
import Stacklet.Proofs.Report.Snippets
import Stacklet.Proofs.Tree.Origins
import Stacklet.Proofs.Word.Splitting

/-! # Underlined lexemes

Every place that is reported on a text, in whatever phase, is that of a lexeme of the text: of a
token or of a literal that is none, of a word, or empty at the end. So the snippet of every error
underlines what the error is about.
-/

namespace Stacklet

/-! ## Tokens -/

/-- Only a blank begins with a newline. -/
theorem Cut.Lawful.head?_lexeme {piece : Piece} {lexeme rest : List Char}
    (h : Cut.Lawful ⟨piece, lexeme, rest⟩) (hitem : piece.isSkipped = false) :
    lexeme.head? ≠ some '\n' := by
  intro hhead
  obtain ⟨tail, rfl⟩ := List.head?_eq_some_iff.mp hhead
  have hfirst : Cut.first '\n' (tail ++ rest) = ⟨piece, '\n' :: tail, rest⟩ := h.first_eq rfl
  have hblank : Cut.first '\n' (tail ++ rest) = Cut.behind .blank '\n' [] (tail ++ rest) := by
    rw [Cut.first_eq_select, Cut.select_of_isBlank rfl]
  obtain rfl : Piece.blank = piece := congrArg Cut.piece (hblank.symm.trans hfirst)
  cases hitem

namespace Lexer

variable {source : Source}

theorem isLexeme_of_mem_pending {found : Located Piece} (h : found ∈ (ofText source.text).pending)
    (hskipped : found.value.isSkipped = false) : found.span.IsLexeme source := by
  obtain ⟨item, hitem⟩ : ∃ item, found.value.item? found.span = some item := by
    rw [← Option.ne_none_iff_exists', ne_eq, Piece.item?_eq_none_iff, hskipped]
    exact Bool.false_ne_true
  have hmem : item ∈ itemsOf 1 0 (pieces source.text) := List.mem_filterMap.mpr ⟨found, h, hitem⟩
  obtain ⟨before, piece, lexeme, behind, hpieces, hpiece⟩ := exists_piece_of_mem_itemsOf hmem
  have htext : source.text = textOfPieces before ++ (lexeme ++ textOfPieces behind) := by
    rw [← textOfPieces_cons, ← textOfPieces_append, ← hpieces, textOfPieces_pieces]
  have hlexeme := forall_mem_pieces (P := fun piece lexeme =>
    piece.isSkipped = false → lexeme ≠ [] ∧ lexeme.head? ≠ some '\n')
    (fun hlawful hskipped => ⟨hlawful.lexeme_ne_nil, hlawful.head?_lexeme hskipped⟩) source.text
  rw [hpieces] at hlexeme
  have hpieceSkipped : piece.isSkipped = false := by
    rw [← Bool.not_eq_true, ← Piece.item?_eq_none_iff, hpiece]
    exact nofun
  obtain ⟨hne, hhead⟩ := hlexeme (piece, lexeme) (by simp) hpieceSkipped
  rw [← Piece.span_of_item? hitem, Piece.span_of_item? hpiece]
  refine Span.isLexeme_of_append htext (Nat.zero_add _) ?_ ?_
  · simp [Piece.span]
  · rwa [List.head?_append_of_ne_nil _ hne]

theorem isLexeme_finish : (ofText source.text).finish.IsLexeme source := by
  have htext : source.text = source.text ++ ([] ++ []) := by simp
  exact Span.isLexeme_of_append htext rfl rfl nofun

theorem isLexeme_of_scan_ok {tokens : List (Located Token)} (h : scan source.text = .ok tokens) :
    ∀ token ∈ tokens, token.span.IsLexeme source := by
  intro token htoken
  unfold scan exhaust at h
  split at h
  next =>
    cases h
    rcases List.mem_append.mp htoken with hread | hend
    · obtain ⟨⟨piece, span⟩, hpiece, hvalue⟩ := List.mem_filterMap.mp hread
      cases piece <;> cases hvalue
      exact isLexeme_of_mem_pending hpiece rfl
    · obtain rfl := List.mem_singleton.mp hend
      exact isLexeme_finish
  next => cases h

theorem isLexeme_of_scan_error {errors : List (Located LexError)}
    (h : scan source.text = .error errors) : ∀ error ∈ errors, error.span.IsLexeme source := by
  intro error herror
  unfold scan exhaust at h
  split at h
  next => cases h
  next =>
    cases h
    obtain ⟨⟨piece, span⟩, hpiece, hvalue⟩ := List.mem_filterMap.mp herror
    cases piece <;> cases hvalue
    exact isLexeme_of_mem_pending hpiece rfl

end Lexer

/-! ## Words -/

section Words

variable {source : Source}

theorem isLexeme_of_mem_words {word : Located (List Char)} (h : word ∈ words 1 0 source.text) :
    word.span.IsLexeme source := by
  obtain ⟨before, behind, htext, hrun, hspan⟩ := mem_words_iff.mp h
  rw [Nat.zero_add] at hspan
  apply Span.isLexeme_of_append htext
  · rw [hspan]
  · rw [hspan]
  · rw [List.head?_append_of_ne_nil _ hrun.ne_nil]
    intro hhead
    exact nomatch hrun.inside '\n' (List.mem_of_head? hhead)

theorem isLexeme_of_readWords_error {errors : List (Located WordError)}
    (h : readWords source.text = .error errors) : ∀ error ∈ errors, error.span.IsLexeme source := by
  intro error herror
  unfold readWords at h
  dsimp only at h
  split at h
  next => cases h
  next =>
    cases h
    rw [unknownWords_eq] at herror
    obtain ⟨word, hword, rfl⟩ := List.mem_map.mp herror
    exact isLexeme_of_mem_words (List.mem_filter.mp hword).1

theorem isLexeme_of_readWords_ok {instructions : List (Located (Instruction Unit))}
    (h : readWords source.text = .ok instructions) :
    ∀ instruction ∈ instructions, instruction.span.IsLexeme source := by
  intro instruction hinstruction
  unfold readWords at h
  dsimp only at h
  split at h
  next =>
    cases h
    obtain ⟨word, hword, hread⟩ := List.mem_filterMap.mp hinstruction
    obtain ⟨_, -, rfl⟩ := Option.map_eq_some_iff.mp hread
    exact isLexeme_of_mem_words hword
  next => cases h

/-- A fault of blocks is at one of the words, or at one that opened an arm before them. -/
theorem Blocks.place_of_fault? {places : Span → Prop} {opened : List (Located Arm)}
    {instructions : List (Located (Instruction Unit))} {error : Located BlockError}
    (hopened : ∀ arm ∈ opened, places arm.span) (hwords : ∀ word ∈ instructions, places word.span)
    (h : fault? opened instructions = some error) : places error.span := by
  induction instructions generalizing opened with
  | nil =>
      obtain ⟨arm, harm, rfl⟩ := Option.map_eq_some_iff.mp h
      exact hopened arm (List.mem_of_head? harm)
  | cons word rest ih =>
      obtain ⟨instruction, span⟩ := word
      obtain ⟨hspan, hrest⟩ := List.forall_mem_cons.mp hwords
      have houter : ∀ arm ∈ opened.tail, places arm.span := fun arm harm =>
        hopened arm (List.mem_of_mem_tail harm)
      unfold fault? at h
      split at h
      · exact ih (List.forall_mem_cons.mpr ⟨hspan, hopened⟩) hrest h
      · exact ih (List.forall_mem_cons.mpr ⟨hspan, houter⟩) hrest h
      · cases h
        exact hspan
      · cases h
        exact hspan
      · exact ih houter hrest h
      · cases h
        exact hspan
      · exact ih hopened hrest h

theorem isLexeme_of_link_error {instructions : List (Located (Instruction Unit))}
    {error : Located BlockError} (hread : readWords source.text = .ok instructions)
    (h : link instructions = .error error) : error.span.IsLexeme source := by
  unfold link at h
  split at h
  next fault hfault =>
    cases h
    exact Blocks.place_of_fault? (List.forall_mem_nil _) (isLexeme_of_readWords_ok hread) hfault
  next => cases h

end Words

/-! ## Trees -/

/-- How a node is written. -/
def Node.marks : Node → List Mark
  | .expr whole => whole.marks
  | .stmt whole => whole.marks

section Trees

variable {places : Span → Prop}

theorem Expr.keptIn_reached {expr : Expr} (h : KeptIn places expr.marks) :
    ∀ node ∈ expr.reached, KeptIn places node.marks := by
  fun_induction Expr.reached expr with
  | case1 left op right ihLeft ihRight =>
      have hparts := h
      simp only [Expr.marks, keptIn_append, keptIn_placed] at hparts
      refine List.forall_mem_cons.mpr ⟨h, List.forall_mem_append.mpr ⟨?_, ?_⟩⟩
      · exact ihLeft hparts.1
      · exact ihRight hparts.2.2
  | case2 expr hbinary => exact List.forall_mem_singleton.mpr h

mutual

theorem Stmt.keptIn_reached : ∀ {stmt : Stmt}, KeptIn places stmt.marks →
    ∀ node ∈ stmt.reached, KeptIn places node.marks
  | .print expr, h => by
      refine List.forall_mem_cons.mpr ⟨h, ?_⟩
      simp only [Stmt.marks, keptIn_append, keptIn_keyword] at h
      exact Expr.keptIn_reached h.1
  | .block body, h => by
      refine List.forall_mem_cons.mpr ⟨h, ?_⟩
      simp only [Stmt.marks, keptIn_append, keptIn_symbol] at h
      exact Stmt.keptIn_reachedOf h.1
  | .ifThen condition thenBranch, h => by
      refine List.forall_mem_cons.mpr ⟨h, ?_⟩
      simp only [Stmt.marks, keptIn_append, keptIn_keyword, keptIn_symbol] at h
      exact List.forall_mem_append.mpr ⟨Expr.keptIn_reached h.1, Stmt.keptIn_reached h.2⟩
  | .ifElse condition thenBranch elseBranch, h => by
      refine List.forall_mem_cons.mpr ⟨h, ?_⟩
      simp only [Stmt.marks, keptIn_append, keptIn_keyword, keptIn_symbol] at h
      exact List.forall_mem_append.mpr ⟨Expr.keptIn_reached h.1,
        List.forall_mem_append.mpr ⟨Stmt.keptIn_reached h.2.1, Stmt.keptIn_reached h.2.2⟩⟩
  | .expression _, h | .varDef _ _, h | .whileLoop _ _, h | .funDef _, h | .ret _ _, h
  | .classDef _ _, h => List.forall_mem_singleton.mpr h

theorem Stmt.keptIn_reachedOf : ∀ {body : List Stmt}, KeptIn places (Stmt.marksOf body) →
    ∀ node ∈ Stmt.reachedOf body, KeptIn places node.marks
  | [], _ => List.forall_mem_nil _
  | stmt :: rest, h => by
      simp only [Stmt.marksOf, keptIn_append] at h
      exact List.forall_mem_append.mpr ⟨Stmt.keptIn_reached h.1, Stmt.keptIn_reachedOf h.2⟩

end

/-- What code cannot be made of is reported where its node keeps a place. -/
theorem Node.Unsupported.place_of_keptIn {node : Node} {error : EmitError} {span : Span}
    (h : node.Unsupported error) (hkept : KeptIn places node.marks)
    (hspan : error.span? = some span) : places span := by
  cases h with
  | stmt => exact Stmt.place_of_keptIn hkept hspan
  | expr | operator | literal => exact Expr.place_of_keptIn hkept hspan

theorem Assembly.place_of_ofTree {tree : List Stmt} {lines : List Line} {error : EmitError}
    {span : Span} (h : ofTree tree = ⟨lines, some error⟩) (hkept : KeptIn places (Stmt.marksOf tree))
    (hspan : error.span? = some span) : places span := by
  rcases ofTree_cases tree with ⟨-, hok⟩ | ⟨before, node, after, fault, hvisits, -, hnode, hfault⟩
  · cases hok.symm.trans h
  · cases hfault.symm.trans h
    have hreached : node ∈ Stmt.reachedOf tree := by
      rw [← Stmt.nodesOf_visitsOf 0 tree, hvisits, Visit.nodesOf_append]
      exact List.mem_append_right _ List.mem_cons_self
    exact hnode.place_of_keptIn (Stmt.keptIn_reachedOf hkept node hreached) hspan

end Trees

/-! ## Compilations -/

section

variable {source : Source} {error : CompileError} {diagnostic : Diagnostic} {span : Span}

theorem isLexeme_of_compileTree (h : (compileTree source.text).result = .error error)
    (hdiagnostic : diagnostic ∈ error.diagnostics) (hspan : diagnostic.span = some span) :
    span.IsLexeme source := by
  unfold compileTree at h
  split at h
  next errors hscan =>
    cases h
    obtain ⟨fault, hfault, rfl⟩ := List.mem_map.mp hdiagnostic
    cases hspan
    exact Lexer.isLexeme_of_scan_error hscan fault hfault
  next tokens hscan =>
    have hparse := parse_staysIn (Lexer.isLexeme_of_scan_ok hscan)
    dsimp only at h
    split at h
    next failure hfailure =>
      cases h
      obtain rfl := List.mem_singleton.mp hdiagnostic
      cases hspan
      exact hparse.2 failure hfailure
    next tree htree =>
      split at h
      next fault hfault =>
        cases h
        obtain rfl := List.mem_singleton.mp hdiagnostic
        exact Assembly.place_of_ofTree hfault (hparse.1 tree htree) hspan
      next => cases h

theorem isLexeme_of_compileFlat (h : (compileFlat source.text).result = .error error)
    (hdiagnostic : diagnostic ∈ error.diagnostics) (hspan : diagnostic.span = some span) :
    span.IsLexeme source := by
  unfold compileFlat at h
  split at h
  next errors hread =>
    cases h
    obtain ⟨fault, hfault, rfl⟩ := List.mem_map.mp hdiagnostic
    cases hspan
    exact isLexeme_of_readWords_error hread fault hfault
  next instructions hread =>
    split at h
    next fault hfault =>
      cases h
      obtain rfl := List.mem_singleton.mp hdiagnostic
      cases hspan
      exact isLexeme_of_link_error hread hfault
    next => cases h

end

end Stacklet
