import Stacklet.Proofs.Assembly.Agreement
import Stacklet.Proofs.Token.Cuts
import Stacklet.Proofs.Tree.Parsing

/-! # Programs that print a constant

A natural number can be printed in both languages. Words hold it as it is, a tree as the binary64
number nearest to it. So the front ends make the same text of it just when the two are the same
number.
-/

namespace Stacklet

variable {digits : List Char}

/-! ## Reading -/

theorem Binary64.ofDigits?_nil (digits : List Char) :
    Binary64.ofDigits? digits [] = Binary64.nearest? (digitsValue digits) 1 := by
  rw [Binary64.ofDigits?, List.append_nil]
  rfl

/-- The pieces of a statement that prints a number. -/
theorem pieces_print {number : Binary64} (hne : digits ≠ [])
    (hdigits : digits.all Char.isDigit = true)
    (hnumber : Binary64.nearest? (digitsValue digits) 1 = some number) :
    pieces ("print ".toList ++ (digits ++ [';'])) =
      [(.token (.keyword .kwPrint), "print".toList), (.blank, [' ']),
        (.token (.number number), digits), (.token (.symbol .semicolon), [';'])] := by
  obtain ⟨c, more, rfl⟩ := List.exists_cons_of_ne_nil hne
  obtain ⟨hfirst, hmore⟩ := List.forall_mem_cons.mp (List.all_eq_true.mp hdigits)
  have hword : Cut.Lawful ⟨.token (.keyword .kwPrint), ['p', 'r', 'i', 'n', 't'],
      [' '] ++ (c :: more ++ [';'])⟩ := by
    have hprint : Cut.wordToken ['p', 'r', 'i', 'n', 't'] = .keyword .kwPrint := by decide
    have htail : ['r', 'i', 'n', 't'].all Cut.isNameChar = true := by decide
    rw [← hprint]
    exact .word (by decide) (List.all_eq_true.mp htail) (by rintro _ ⟨⟩; decide)
  have hnumeral : Cut.Lawful ⟨.token (.number number), c :: more, [';']⟩ := by
    have hpiece : Cut.numberPiece (c :: more) [] = .token (.number number) := by
      rw [Cut.numberPiece, Binary64.ofDigits?_nil, hnumber]
      rfl
    rw [← hpiece]
    exact .whole hfirst hmore (by rintro _ ⟨⟩; rfl) (by rintro _ _ ⟨⟩)
  have hsemicolon : pieces [';'] = (.token (.symbol .semicolon), [';']) :: pieces [] :=
    pieces_of_lawful (@Cut.Lawful.symbol ';' .semicolon [] rfl (by decide) (.inl rfl))
  calc pieces ("print ".toList ++ (c :: more ++ [';']))
      = pieces (['p', 'r', 'i', 'n', 't'] ++ ([' '] ++ (c :: more ++ [';']))) := rfl
    _ = _ := by
      rw [pieces_of_lawful hword, pieces_of_lawful (.blank _ rfl), pieces_of_lawful hnumeral,
        hsemicolon, pieces]
      rfl

/-- The tokens and the tree of a statement that prints a number. -/
theorem exists_parse_print {number : Binary64} (hne : digits ≠ [])
    (hdigits : digits.all Char.isDigit = true)
    (hnumber : Binary64.nearest? (digitsValue digits) 1 = some number) :
    ∃ tokens span, scan ("print ".toList ++ (digits ++ [';'])) = .ok tokens ∧
      parse tokens = .ok [.print (.literal (.number number) (some span))] := by
  have hscan : ∃ first span last finish,
      scan ("print ".toList ++ (digits ++ [';'])) = .ok ([⟨.keyword .kwPrint, first⟩,
        ⟨.number number, span⟩, ⟨.symbol .semicolon, last⟩] ++ [⟨.endOfInput, finish⟩]) := by
    simp only [scan, Lexer.exhaust, Lexer.faults, Lexer.tokens, Lexer.ofText,
      pieces_print hne hdigits hnumber, locate]
    exact ⟨_, _, _, _, rfl⟩
  obtain ⟨first, span, last, finish, hscan⟩ := hscan
  refine ⟨_, span, hscan, parse_of_isCanonical rfl ?_ ?_⟩
  · exact ⟨⟨trivial, rfl, trivial⟩, Nat.le_of_ble_eq_true rfl⟩
  · exact .cons (by simp) (.cons (by simp [Mark.Matches, Literal.token]) (.cons (by simp) .nil))

namespace Assembly

/-! ## Code -/

/-- The program that prints a number. -/
def printing (cell : Cell) : List Line :=
  prologue ++ ((push cell ++ dump) ++ epilogue)

theorem executes_printing (cell : Cell) : Executes (push cell ++ dump) 0 0 [cell] :=
  (evaluates_push cell).print 0

theorem computes_printing (cell : Cell) : Computes (render (printing cell)) [] [] [cell] := by
  have hexecutes := executes_printing cell
  refine computes_of_leads hexecutes.legible ?_
  intro clobber below
  exact hexecutes.leads hexecutes.nodup_definitions (List.suffix_append _ _)

theorem push_injective : push.Injective := by
  intro cell other h
  apply BitVec.eq_of_toInt_eq
  simp only [push, quad] at h
  -- A constant that goes through a register takes one line more.
  split at h <;> split at h
  · simp only [List.cons.injEq, Line.code.injEq, Code.push.injEq, Operand.constant.injEq] at h
    exact h.2.1
  · simp at h
  · simp at h
  · simp only [List.cons.injEq, Line.code.injEq, Code.operate.injEq, Operand.constant.injEq] at h
    exact h.2.1.2.2.2

/-- The text of a program that prints a number tells the number. -/
theorem render_printing_injective : (fun cell => render (printing cell)).Injective := by
  intro cell other h
  have hlines : printing cell = printing other := by
    have hread : read? (render (printing cell)) = read? (render (printing other)) :=
      congrArg read? h
    rwa [printing, printing, read?_render (legible_framed (executes_printing cell).legible),
      read?_render (legible_framed (executes_printing other).legible), Option.some.injEq] at hread
  simp only [printing, List.append_assoc, List.append_cancel_left_eq,
    List.append_cancel_right_eq] at hlines
  exact push_injective hlines

/-- Words print the number that the digits are. -/
theorem compile_flat_constant (hne : digits ≠ []) (hdigits : digits.all Char.isDigit = true)
    (hbound : digitsValue digits < 2 ^ 63) :
    (compile (digits ++ [' ', '.']) .flat).result =
      .ok (printing (BitVec.ofNat 64 (digitsValue digits))) := by
  have hspells := Spells.natural hne hdigits hbound
  rw [BitVec.ofInt_natCast] at hspells
  let nesting : Nesting :=
    .basic (.push (BitVec.ofNat 64 (digitsValue digits))) (.basic .dump .done)
  have hdenotes : List.Forall₂ Denotes [digits, ['.']] nesting.words :=
    .cons (.number hspells) (.cons .dot .nil)
  exact compile_intercalate hdenotes

/-- What becomes of a text that is read as a tree. -/
theorem compile_of_parse {text : List Char} {tokens : List (Located Token)}
    {statements : List Stmt} (hscan : scan text = .ok tokens)
    (hparse : parse tokens = .ok statements) :
    (compile text .tree).result =
      (ofTree statements).fault.elim (.ok (ofTree statements).lines)
        fun fault => .error (.emission fault) := by
  simp only [compile, compileTree, hscan, hparse]
  split
  next lines fault hfault => rw [hfault, Option.elim_some]
  next lines hnone => rw [hnone, Option.elim_none]

/-- A tree prints the binary64 number nearest to the number that the digits are. There is no code
if that does not fit into a cell. -/
theorem compile_tree_constant (hne : digits ≠ []) (hdigits : digits.all Char.isDigit = true)
    (hbound : digitsValue digits < 2 ^ 63) :
    ∃ number span, number.toInt? = some (Binary64.rounded (digitsValue digits) : Int) ∧
      (compile ("print ".toList ++ (digits ++ [';'])) .tree).result =
        if Binary64.rounded (digitsValue digits) < 2 ^ 63 then
          .ok (printing (BitVec.ofNat 64 (Binary64.rounded (digitsValue digits))))
        else .error (.emission (.unsupportedLiteral (.number number) (some span))) := by
  obtain ⟨number, hnumber, hvalue⟩ := Binary64.exists_nearest? hbound
  obtain ⟨tokens, span, hscan, hparse⟩ := exists_parse_print hne hdigits hnumber
  refine ⟨number, span, hvalue, ?_⟩
  generalize Binary64.rounded (digitsValue digits) = value at hvalue ⊢
  rw [compile_of_parse hscan hparse]
  split
  next hfits =>
    have hcell : (Literal.number number).cell? = some (BitVec.ofNat 64 value) := by
      rw [Literal.cell?, hvalue, Option.bind_some, if_pos (by omega), BitVec.ofInt_natCast]
    have hsupported : Stmt.AllSupported [.print (.literal (.number number) (some span))] := by
      refine ⟨?_, trivial⟩
      rw [Stmt.Supported, Expr.Supported, hcell]
      rfl
    rw [ofTree_of_allSupported hsupported, Stmt.codeOf, Stmt.codeOf, Stmt.code, Expr.code, hcell,
      Option.map_some, Option.getD_some, List.append_nil]
    rfl
  next hwide =>
    have hcell : (Literal.number number).cell? = none := by
      rw [Literal.cell?, hvalue, Option.bind_some, if_neg (by omega)]
    have hfault : (ofTree [.print (.literal (.number number) (some span))]).fault =
        some (.unsupportedLiteral (.number number) (some span)) := by
      rw [ofTree, ofStmts, ofStmts, ofStmt, ofExpr, hcell]
      rfl
    rw [hfault, Option.elim_some]

/-- A natural number that fits into a cell with a sign is printed by code that pushes just it, if
it is written as words. Written as a tree it becomes the same text if and only if it has no more
than the 53 bits that a binary64 number holds, zeros at its end apart. -/
theorem compile_constant (hne : digits ≠ []) (hdigits : digits.all Char.isDigit = true)
    (hbound : digitsValue digits < 2 ^ 63) :
    let cell := BitVec.ofNat 64 (digitsValue digits)
    let lines := prologue ++ ((push cell ++ dump) ++ epilogue)
    (compile (digits ++ [' ', '.']) .flat).result.map render = .ok (render lines) ∧
      Computes (render lines) [] [] [cell] ∧
      ((compile ("print ".toList ++ (digits ++ [';'])) .tree).result.map render =
          .ok (render lines) ↔
        ∃ significand exponent, significand < 2 ^ 53 ∧
          digitsValue digits = significand * 2 ^ exponent) := by
  intro cell lines
  refine ⟨?_, computes_printing cell, ?_⟩
  · rw [compile_flat_constant hne hdigits hbound]
    rfl
  · obtain ⟨number, span, -, htree⟩ := compile_tree_constant hne hdigits hbound
    rw [htree, ← Binary64.rounded_eq_self_iff]
    constructor
    · intro h
      split at h
      next hfits =>
        have hcell := congrArg BitVec.toNat (render_printing_injective (Except.ok.inj h))
        rw [BitVec.toNat_ofNat, BitVec.toNat_ofNat] at hcell
        omega
      next => exact nomatch h
    · intro h
      rw [h, if_pos hbound]
      rfl

/-- Zeros in front do not count, and neither does the one at the end in binary. -/
theorem compile_constant_even :
    ∃ text, (compile "0009007199254740994 .".toList .flat).result.map render = .ok text ∧
      Computes text [] [] [9007199254740994] ∧
      (compile "print 0009007199254740994;".toList .tree).result.map render = .ok text := by
  have hvalue : digitsValue "0009007199254740994".toList = 9007199254740994 := by decide
  have hne : "0009007199254740994".toList ≠ [] := by decide
  obtain ⟨hflat, hcomputes, htree⟩ := compile_constant hne (by decide) (by rw [hvalue]; decide)
  rw [hvalue] at hflat hcomputes htree
  exact ⟨_, hflat, hcomputes, htree.mpr ⟨4503599627370497, 1, by decide, by decide⟩⟩

/-- An odd number of 54 bits is no binary64 number. -/
theorem compile_constant_odd :
    let digits := "9007199254740993".toList
    digits ≠ [] ∧ digits.all Char.isDigit = true ∧ digitsValue digits < 2 ^ 63 ∧
      ¬ ∃ text, (compile ("print ".toList ++ (digits ++ [';'])) .tree).result.map render =
          .ok text ∧
        (compile (digits ++ [' ', '.']) .flat).result.map render = .ok text := by
  intro digits
  have hne : digits ≠ [] := by decide
  have hdigits : digits.all Char.isDigit = true := by decide
  have hbound : digitsValue digits < 2 ^ 63 := by decide
  have hrounded : Binary64.rounded (digitsValue digits) = 9007199254740992 := by decide
  refine ⟨hne, hdigits, hbound, ?_⟩
  rintro ⟨text, htree, hflat⟩
  obtain ⟨number, span, -, hprinted⟩ := compile_tree_constant hne hdigits hbound
  rw [hprinted, hrounded, if_pos (by decide)] at htree
  rw [compile_flat_constant hne hdigits hbound] at hflat
  have hcell := render_printing_injective ((Except.ok.inj htree).trans (Except.ok.inj hflat).symm)
  exact absurd hcell (by decide)

end Assembly

end Stacklet
