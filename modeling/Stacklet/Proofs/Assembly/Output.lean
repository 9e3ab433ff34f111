import Stacklet.Assembly.Output
import Stacklet.Proofs.Assembly.OfTree

/-! # Writing while walking

To write a text and then another is to write both at once, whatever room there is. So a walk that
writes template by template writes what it would have put together, up to the first fault, and the
room of an output cuts its text without changing it.
-/

namespace Stacklet.Assembly

/-! ## Texts -/

theorem render_append (front behind : List Line) :
    render (front ++ behind) = render front ++ render behind := by
  simp only [render, List.map_append, String.join_append]

theorem put_unlimited (text : String) (written : ByteArray) :
    put text ⟨written, none⟩ = .ok () ⟨written ++ text.toByteArray, none⟩ :=
  rfl

theorem put_of_le {text : String} {room : Nat} (h : text.toByteArray.size ≤ room)
    (written : ByteArray) :
    put text ⟨written, some room⟩ =
      .ok () ⟨written ++ text.toByteArray, some (room - text.toByteArray.size)⟩ :=
  if_pos h

theorem put_of_lt {text : String} {room : Nat} (h : room < text.toByteArray.size)
    (written : ByteArray) :
    put text ⟨written, some room⟩ =
      .error .outOfSpace ⟨written ++ text.toByteArray.extract 0 room, some 0⟩ :=
  if_neg (Nat.not_le.mpr h)

theorem put_empty : put "" = pure () := by
  funext ⟨written, room⟩
  have hwritten : written ++ "".toByteArray = written := ByteArray.append_empty
  cases room with
  | none => rw [put_unlimited, hwritten]; rfl
  | some room => rw [put_of_le (Nat.zero_le room), hwritten]; rfl

theorem bind_of_ok {first : Emit Unit} {output next : Output} (h : first output = .ok () next)
    (second : Emit Unit) : (do first; second) output = second next := by
  change EStateM.bind first (fun _ => second) output = second next
  rw [EStateM.bind, h]

theorem bind_of_error {first : Emit Unit} {output last : Output} {fault : EmitError}
    (h : first output = .error fault last) (second : Emit Unit) :
    (do first; second) output = .error fault last := by
  change EStateM.bind first (fun _ => second) output = .error fault last
  rw [EStateM.bind, h]

/-- What does not fit whole is cut at the same byte, in whichever part that is. -/
theorem put_append (front behind : String) :
    put (front ++ behind) = (do put front; put behind) := by
  funext ⟨written, room⟩
  have hbytes : (front ++ behind).toByteArray = front.toByteArray ++ behind.toByteArray :=
    String.toByteArray_append
  have hsize : (front ++ behind).toByteArray.size =
      front.toByteArray.size + behind.toByteArray.size := by
    rw [hbytes, ByteArray.size_append]
  cases room with
  | none =>
      rw [bind_of_ok (put_unlimited _ _), put_unlimited, put_unlimited, hbytes,
        ByteArray.append_assoc]
  | some room =>
      rcases Nat.lt_or_ge room front.toByteArray.size with hfront | hfront
      · -- The first text ends the writing, so the second is not looked at.
        have hcut : room - front.toByteArray.size = 0 := by omega
        rw [bind_of_error (put_of_lt hfront _), put_of_lt (by omega), hbytes,
          ByteArray.extract_append, hcut, Nat.zero_sub, ByteArray.extract_same,
          ByteArray.append_empty]
      rw [bind_of_ok (put_of_le hfront _)]
      rcases Nat.lt_or_ge room (front ++ behind).toByteArray.size with hwhole | hwhole
      · have hextract : front.toByteArray.extract 0 room = front.toByteArray := by
          rw [← Nat.max_eq_left hfront, ByteArray.extract_zero_max_size]
        rw [put_of_lt hwhole, put_of_lt (by omega), hbytes, ByteArray.extract_append, hextract,
          Nat.zero_sub, ByteArray.append_assoc]
      · rw [put_of_le hwhole, put_of_le (by omega), hsize, Nat.sub_add_eq, hbytes,
          ByteArray.append_assoc]

/-! ## Emissions -/

/-- Writes all of an emission at once, and ends with its fault. -/
def Emission.emit (emission : Emission) : Emit Unit := do
  put emission.text
  match emission.fault with
  | some fault => throw fault
  | none => pure ()

theorem putLines_append (front behind : List Line) :
    putLines (front ++ behind) = (do putLines front; putLines behind) := by
  rw [putLines, render_append, put_append, putLines, putLines]

theorem putPrologue_eq : putPrologue = putLines prologue := by
  have hparts : prologue =
      [.format] ++ ([.segment] ++ (dumpRoutine ++ [.entry .main, .label .main])) := rfl
  rw [hparts, putLines_append, putLines_append, putLines_append, putPrologue]

theorem emit_of_none (lines : List Line) : (⟨lines, none⟩ : Emission).emit = putLines lines :=
  bind_pure_unit

theorem emit_error (fault : EmitError) (rest : List Step) :
    (Emission.ofSteps (.error fault :: rest)).emit = throw fault := by
  have htext : (Emission.ofSteps (.error fault :: rest)).text = "" := rfl
  rw [Emission.emit, htext, put_empty, pure_bind]
  rfl

section

variable {rest : List Step} {next : Unit → Emit Unit}

/-- A template before what is emitted of further steps. -/
theorem putLines_bind {template : List Line} (h : next () = (Emission.ofSteps rest).emit) :
    putLines template >>= next = (Emission.ofSteps (write template rest)).emit := by
  have hnext : next = fun _ => (Emission.ofSteps rest).emit := funext fun _ => h
  rw [hnext, ofSteps_write, Emission.emit, Emission.emit, Emission.text, Emission.text,
    render_append, put_append, putLines, bind_assoc]

/-- An expression before what is emitted of further steps. -/
theorem emitExpr_bind {expr : Expr} (h : next () = (Emission.ofSteps rest).emit) :
    emitExpr expr >>= next = (Emission.ofSteps (ofExpr expr rest)).emit := by
  fun_induction ofExpr expr rest generalizing next with
  | case1 value span rest cell hcell =>
      rw [emitExpr, hcell]
      exact putLines_bind h
  | case2 value span rest hnone =>
      rw [emitExpr, hnone, emit_error]
      rfl
  | case3 left op right rest template htemplate ihRight ihLeft =>
      simp only [emitExpr, htemplate, bind_assoc]
      exact ihLeft (ihRight (putLines_bind h))
  | case4 left op right rest hnone =>
      rw [emitExpr, hnone, emit_error]
      rfl
  | case5 expr rest hliteral hbinary =>
      rw [emit_error, emitExpr]
      · rfl
      · exact hliteral
      · exact hbinary

end

mutual

/-- A statement before what is emitted of further steps, which take over the next label. -/
theorem emitStmt_bind {number : Nat} {rest : List Step} {next : Unit × Nat → Emit Unit} :
    ∀ {stmt : Stmt}, next ((), number + labels stmt) = (Emission.ofSteps rest).emit →
      (emitStmt stmt).run number >>= next = (Emission.ofSteps (ofStmt number stmt rest)).emit
  | .print expr, h => by
      simp only [emitStmt, StateT.run_bind, StateT.run_monadLift, monadLift_self, bind_assoc,
        pure_bind]
      exact emitExpr_bind (putLines_bind h)
  | .block body, h => by
      rw [emitStmt]
      exact emitStmts_bind h
  | .ifThen condition thenBranch, h => by
      rw [labels, ← Nat.add_assoc] at h
      simp only [emitStmt, takeLabels, StateT.run_bind, StateT.run_monadLift, monadLift_self,
        StateT.run_modifyGet, bind_assoc, pure_bind]
      exact emitExpr_bind (putLines_bind (emitStmt_bind (putLines_bind h)))
  | .ifElse condition thenBranch elseBranch, h => by
      rw [labels, ← Nat.add_assoc, ← Nat.add_assoc] at h
      -- Both arms are walked with the labels that the arms before them have left.
      simp only [emitStmt, takeLabels, StateT.run_bind, StateT.run_monadLift, monadLift_self,
        StateT.run_modifyGet, bind_assoc, pure_bind]
      exact emitExpr_bind <| putLines_bind <| emitStmt_bind <| putLines_bind <|
        emitStmt_bind <| putLines_bind h
  | .expression _, h | .varDef _ _, h | .whileLoop _ _, h | .funDef _, h | .ret _ _, h
  | .classDef _ _, h => (emit_error _ _).symm

/-- Statements before what is emitted of further steps, which take over the next label. -/
theorem emitStmts_bind {number : Nat} {rest : List Step} {next : Unit × Nat → Emit Unit} :
    ∀ {statements : List Stmt},
      next ((), number + labelsOf statements) = (Emission.ofSteps rest).emit →
      (emitStmts statements).run number >>= next =
        (Emission.ofSteps (ofStmts number statements rest)).emit
  | [], h => h
  | stmt :: more, h => by
      rw [labelsOf, ← Nat.add_assoc] at h
      rw [emitStmts, StateT.run_bind, bind_assoc]
      exact emitStmt_bind (emitStmts_bind h)

end

/-- The walk over a tree writes what is emitted of it. -/
theorem emitTree_eq (statements : List Stmt) : emitTree statements = (ofTree statements).emit := by
  have hend : pure () = (Emission.ofSteps []).emit := put_empty.symm.trans (emit_of_none []).symm
  rw [emitTree, putPrologue_eq, ← bind_pure_unit (x := putLines epilogue), StateT.run'_eq,
    bind_map_left]
  exact putLines_bind (emitStmts_bind (putLines_bind hend))

theorem emitInstructions_eq (index : Nat) (instructions : List (Instruction Nat)) :
    emitInstructions index instructions = putLines (ofInstructions index instructions) := by
  induction instructions generalizing index with
  | nil => exact put_empty.symm
  | cons instruction rest ih => rw [emitInstructions, ofInstructions, putLines_append, ih]

/-- Going through words writes what is emitted of them. -/
theorem emitWords_eq (instructions : List (Located (Instruction Nat))) :
    emitWords instructions = (⟨ofWords instructions, none⟩ : Emission).emit := by
  rw [emitWords, putPrologue_eq, emitInstructions_eq, emit_of_none, ofWords, putLines_append,
    putLines_append, bind_assoc]

/-! ## Limited outputs -/

/-- What is written where there is room for so many bytes only. -/
def Emitted.cut (limit : Nat) (whole : Emitted) : Emitted :=
  if whole.bytes.size ≤ limit then whole
  else ⟨whole.bytes.extract 0 limit, some .outOfSpace⟩

theorem emitted_unlimited (emission : Emission) :
    emitted none emission.emit = ⟨emission.text.toByteArray, emission.fault⟩ := by
  rw [emitted, Emission.emit, bind_of_ok (put_unlimited _ _), ByteArray.empty_append]
  cases emission.fault <;> rfl

/-- Where there is room for everything, the text and the fault of a tree are what is left. -/
theorem emitted_emitTree (statements : List Stmt) :
    emitted none (emitTree statements) =
      ⟨(ofTree statements).text.toByteArray, (ofTree statements).fault⟩ := by
  rw [emitTree_eq, emitted_unlimited]

theorem emitted_limited (emission : Emission) (limit : Nat) :
    emitted (some limit) emission.emit = (emitted none emission.emit).cut limit := by
  rw [emitted_unlimited, emitted, Emission.emit]
  rcases Nat.lt_or_ge limit emission.text.toByteArray.size with hover | hfits
  · rw [bind_of_error (put_of_lt hover _), ByteArray.empty_append, Emitted.cut,
      if_neg (Nat.not_le.mpr hover)]
  · rw [bind_of_ok (put_of_le hfits _), ByteArray.empty_append, Emitted.cut, if_pos hfits]
    cases emission.fault <;> rfl

/-- A full output never corrupts the text. With enough room a program is written and ends as it does
without a limit. With less, the bytes that there is room for are its first ones, and the outcome is
that there is no space, even if the program has a fault further on. -/
theorem emitted_cut (limit : Nat) :
    (∀ statements : List Stmt,
      emitted (some limit) (emitTree statements) = (emitted none (emitTree statements)).cut limit) ∧
    ∀ instructions : List (Located (Instruction Nat)),
      emitted (some limit) (emitWords instructions) =
        (emitted none (emitWords instructions)).cut limit := by
  constructor
  · intro statements
    rw [emitTree_eq, emitted_limited]
  · intro instructions
    rw [emitWords_eq, emitted_limited]

end Stacklet.Assembly
