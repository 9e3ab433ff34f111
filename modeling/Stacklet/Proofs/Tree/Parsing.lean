import Stacklet.Proofs.Tree.Completeness
import Stacklet.Proofs.Tree.Places

/-! # The parser inverts rendering

A stream of tokens without `for` is read as a tree if and only if the tree is canonical, the stream
is how it is written, and it keeps the places of the stream. No canonical tree is refused for where
its tokens stand.
-/

namespace Stacklet

variable {front : List (Located Token)} {last : Located Token} {tree : List Stmt}

/-! ## Streams -/

theorem written_iff {marks : List Mark} {tokens : List (Located Token)} :
    Written marks tokens ↔ marks.map Mark.token = tokens.map (·.value) ∧
      ∀ pair ∈ marks.zip tokens, ∀ place ∈ pair.1.place, place = some pair.2.span := by
  induction marks generalizing tokens with
  | nil => cases tokens <;> simp
  | cons mark marks ih =>
      cases tokens with
      | nil => simp [Written]
      | cons token tokens =>
          simp only [Written, List.forall₂_cons, Mark.Matches, List.map_cons, List.cons.injEq,
            List.zip_cons_cons, List.forall_mem_cons]
          rw [← Written, ih, eq_comm, and_and_and_comm]

theorem written_marksOf_iff (hlast : last.value = .endOfInput) :
    Written (Stmt.marksOf tree) front ↔
      rendering tree ++ [.endOfInput] = (front ++ [last]).map (·.value) ∧
        KeepsPlaces tree (front ++ [last]) := by
  rw [written_iff, List.map_append, List.map_singleton, hlast, List.append_left_inj]
  refine and_congr_right fun hvalues => ?_
  have hlength : (Stmt.marksOf tree).length = front.length := by
    simpa using congrArg List.length hvalues
  have hzip : (Stmt.marksOf tree).zip (front ++ [last]) = (Stmt.marksOf tree).zip front := by
    rw [← List.append_nil (Stmt.marksOf tree), List.zip_append hlength]
    simp
  rw [KeepsPlaces, hzip]

theorem exists_placed (hlast : last.value = .endOfInput)
    (h : rendering tree ++ [.endOfInput] = (front ++ [last]).map (·.value)) :
    ∃ placed, Stmt.unplacedAll placed = Stmt.unplacedAll tree ∧
      Written (Stmt.marksOf placed) front := by
  rw [rendering, List.map_append, List.map_singleton, hlast, List.append_left_inj] at h
  have hanywhere : Written ((Stmt.marksOf tree).map Mark.anywhere) front := by
    rw [written_iff, List.map_map]
    refine ⟨h, fun pair hpair place hplace => ?_⟩
    obtain ⟨mark, -, hmark⟩ := List.mem_map.mp (List.of_mem_zip hpair).1
    rw [← hmark] at hplace
    cases hplace
  exact placeable_marksOf (Stmt.allPlaceable tree) hanywhere

/-! ## Both directions -/

/-- What was passed when the end of input is ahead is everything before it. -/
theorem Cursor.Passed.eq_front {after : Cursor} {passed : List (Located Token)}
    (h : Cursor.Passed ⟨front ++ [last], last, last⟩ after passed)
    (hlast : last.value = .endOfInput) (hfront : ∀ token ∈ front, token.value ≠ .endOfInput)
    (hend : after.atEnd = true) : passed = front := by
  obtain ⟨hrest, -, hpassed⟩ := h
  rcases List.append_eq_append_iff.mp hrest with ⟨beyond, rfl, hbeyond⟩ | ⟨short, rfl, hshort⟩
  -- The end of input is never passed, and nothing before it ends the program.
  · rcases beyond with _ | ⟨token, beyond⟩
    · rw [List.append_nil]
    · obtain ⟨rfl, -⟩ := List.cons_eq_cons.mp hbeyond
      exact absurd hlast (hpassed last (by simp))
  · rcases short with _ | ⟨token, short⟩
    · rw [List.append_nil]
    · rw [Cursor.atEnd, Cursor.peek, hshort, decide_eq_true_eq] at hend
      exact absurd hend (hfront token (by simp))

theorem isCanonical_of_parse (hlast : last.value = .endOfInput)
    (hfront : ∀ token ∈ front, token.value ≠ .endOfInput)
    (hfor : ∀ token ∈ front, token.value ≠ .keyword .kwFor)
    (h : parse (front ++ [last]) = .ok tree) :
    IsCanonical tree ∧ Written (Stmt.marksOf tree) front := by
  obtain ⟨after, hdone⟩ := done_of_parse List.getLast?_concat h
  have hplain : Cursor.Plain ⟨front ++ [last], last, last⟩ := by
    refine ⟨hlast, List.forall_mem_append.mpr ⟨hfor, List.forall_mem_singleton.mpr ?_⟩⟩
    simp [hlast]
  obtain ⟨passed, hpassed, htree, hwritten, hend⟩ :=
    Grammar.gives_program _ hplain tree after hdone
  obtain rfl := hpassed.eq_front hlast hfront hend
  exact ⟨htree, hwritten⟩

theorem parse_of_isCanonical (hlast : last.value = .endOfInput) (htree : IsCanonical tree)
    (h : Written (Stmt.marksOf tree) front) : parse (front ++ [last]) = .ok tree := by
  have hfuel : 4 * front.length < Grammar.fuelFor (front ++ [last]).length := by
    rw [Grammar.fuelFor, List.length_append]
    omega
  obtain ⟨previous, hdone⟩ := Grammar.passes_program htree h hlast hfuel
  exact parse_of_done List.getLast?_concat hdone

/-- Every canonical tree that keeps all its places is read from some stream of tokens. -/
theorem exists_parse_of_isCanonical {tree : List Stmt} (htree : IsCanonical tree)
    (hplaces : ∀ mark ∈ Stmt.marksOf tree, mark.place ≠ some none) :
    ∃ front last, last.value = Token.endOfInput ∧ parse (front ++ [last]) = .ok tree := by
  let locate (mark : Mark) : Located Token :=
    ⟨mark.token, (mark.place.getD none).getD ⟨1, 0, 0⟩⟩
  have hwritten : Written (Stmt.marksOf tree) ((Stmt.marksOf tree).map locate) := by
    refine List.forall₂_map_right_iff.mpr (List.forall₂_same.mpr ?_)
    intro mark hmark
    refine ⟨rfl, ?_⟩
    intro place hplace
    cases place with
    | none => exact absurd hplace (hplaces mark hmark)
    | some span => simp [locate, Option.mem_def.mp hplace]
  exact ⟨_, ⟨.endOfInput, ⟨1, 0, 0⟩⟩, rfl, parse_of_isCanonical rfl htree hwritten⟩

/-- A stream of tokens with the end of input at its end and nowhere else, and without `for`, is read
as a tree if and only if the tree is canonical, its rendering and the end of input are the stream's
values, and it keeps the stream's places. Places decide nothing else: whatever canonical tree the
stream's values are the rendering of, the stream is read as the same tree up to places. -/
theorem parse_eq_ok_iff_isCanonical (hlast : last.value = .endOfInput)
    (hfront : ∀ token ∈ front, token.value ≠ .endOfInput)
    (hfor : ∀ token ∈ front, token.value ≠ .keyword .kwFor) (tree : List Stmt) :
    (parse (front ++ [last]) = .ok tree ↔
      IsCanonical tree ∧
        rendering tree ++ [.endOfInput] = (front ++ [last]).map (·.value) ∧
        KeepsPlaces tree (front ++ [last])) ∧
    (IsCanonical tree → rendering tree ++ [.endOfInput] = (front ++ [last]).map (·.value) →
      ∃ placed, parse (front ++ [last]) = .ok placed ∧
        Stmt.unplacedAll placed = Stmt.unplacedAll tree) := by
  refine ⟨?_, ?_⟩
  · rw [← written_marksOf_iff hlast]
    constructor
    · exact isCanonical_of_parse hlast hfront hfor
    · rintro ⟨htree, hwritten⟩
      exact parse_of_isCanonical hlast htree hwritten
  · intro htree hvalues
    obtain ⟨placed, hplaced, hwritten⟩ := exists_placed hlast hvalues
    refine ⟨placed, parse_of_isCanonical hlast ?_ hwritten, hplaced⟩
    rwa [← isCanonical_unplacedAll, hplaced, isCanonical_unplacedAll]

/-- An `else` goes with the conditional before it, and a difference is taken before it is
assigned. -/
theorem parse_eq_ok_iff_isCanonical_arms :
    let place (index : Nat) : Span := ⟨1, index, index + 1⟩
    let token (value : Token) (index : Nat) : Located Token := ⟨value, place index⟩
    let name (text : String) (index : Nat) : Located String := ⟨text, place index⟩
    let front : List (Located Token) :=
      [token (.keyword .kwIf) 0, token (.symbol .openParen) 1, token (.name "a") 2,
        token (.symbol .closeParen) 3, token (.name "x") 4, token (.symbol .assign) 5,
        token (.name "b") 6, token (.symbol .minus) 7, token (.name "c") 8,
        token (.symbol .semicolon) 9, token (.keyword .kwElse) 10, token (.keyword .kwPrint) 11,
        token (.symbol .bang) 12, token (.name "d") 13, token (.symbol .semicolon) 14]
    let difference : Expr :=
      .binary (.var (name "b" 6)) ⟨.sub, place 7⟩ (.var (name "c" 8))
    parse (front ++ [token .endOfInput 15]) = .ok
      [.ifElse (.var (name "a" 2)) (.expression (.assign (name "x" 4) difference))
        (.print (.unary ⟨.not, place 12⟩ (.var (name "d" 13))))] := by
  intro place token name front difference
  refine (parse_eq_ok_iff_isCanonical rfl (by decide) (by decide) _).1.mpr ⟨⟨?_, ?_⟩, rfl, ?_⟩
  · simp [difference, Stmt.AllCanonical, Stmt.Canonical, Expr.Canonical, Expr.rank, BinaryOp.rank,
      Stmt.isDeclaration, Stmt.isOpen, Stmt.looksDeclared]
  · decide
  · rw [KeepsPlaces]
    decide

end Stacklet
