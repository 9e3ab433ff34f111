import Stacklet.Proofs.Assembly.Machine

/-! # What the templates do

Each template leads from a stack and an output to another stack and output, whatever is in the
registers and flags. A template never reaches below the operands that it takes.
-/

namespace Stacklet.Assembly

/-- What matters of a machine between two templates. -/
structure Point where
  ahead : List Line
  stack : List Cell
  output : List Cell

/-- The point at which a machine is. -/
def Config.point (config : Config) : Point :=
  ⟨config.ahead, config.machine.stack, config.machine.output⟩

variable {clobber : Machine → (Register → Cell) × Flags} {program : List Line}
variable {below stack output : List Cell} {rest after : List Line}

/-- Every machine at one point comes to another, and leaves the bottom of the stack as it is. -/
def Leads (clobber : Machine → (Register → Cell) × Flags) (program : List Line)
    (below : List Cell) (start stop : Point) : Prop :=
  ∀ config : Config, config.point = start →
    ∃ final : Config, final.point = stop ∧ Steps clobber program below config final

namespace Leads

theorem refl (h : below <:+ stack) :
    Leads clobber program below ⟨rest, stack, output⟩ ⟨rest, stack, output⟩ := by
  intro config hpoint
  have hstack : config.machine.stack = stack := congrArg Point.stack hpoint
  exact ⟨config, hpoint, .refl (hstack ▸ h)⟩

theorem trans {first middle last : Point} (h : Leads clobber program below first middle)
    (h' : Leads clobber program below middle last) : Leads clobber program below first last := by
  intro config hpoint
  obtain ⟨between, hbetween, hsteps⟩ := h config hpoint
  obtain ⟨final, hfinal, hsteps'⟩ := h' between hbetween
  exact ⟨final, hfinal, hsteps.trans hsteps'⟩

end Leads

theorem suffix_cons_of_suffix {value : Cell} (h : below <:+ stack) : below <:+ value :: stack :=
  h.trans (List.suffix_cons value stack)

/-! ## Single lines -/

theorem step?_jump {condition : Condition} {target : Label} {machine : Machine}
    (h : condition.holds machine.flags = true) (htarget : behind target program = some after) :
    Config.step? clobber program ⟨.code (.jump condition target) :: rest, machine⟩ =
      some ⟨after, machine⟩ := by
  simp only [Config.step?, h, htarget, if_true, Option.map_some]

theorem step?_jump_of_not {condition : Condition} {target : Label} {machine : Machine}
    (h : condition.holds machine.flags = false) :
    Config.step? clobber program ⟨.code (.jump condition target) :: rest, machine⟩ =
      some ⟨rest, machine⟩ := by
  simp only [Config.step?, h, Bool.false_eq_true, if_false]

theorem step?_mov_constant {register : Register} {constant : Int} {machine : Machine}
    (hregister : register ≠ .rsp) (h : Operation.mov.takes constant) :
    Config.step? clobber program ⟨quad .mov register (.constant constant) :: rest, machine⟩ =
      some ⟨rest, machine.write register (BitVec.ofInt 64 constant)⟩ := by
  have hread : machine.read? register = some (machine.registers register) := by
    cases register <;> first | rfl | exact absurd rfl hregister
  simp only [quad, Config.step?, Machine.execute?, hread, Machine.source?, h, if_true,
    Operation.result]
  rfl

theorem step?_push_constant {constant : Int} {machine : Machine} (h : isImmediate constant) :
    Config.step? clobber program ⟨.code (.push (.constant constant)) :: rest, machine⟩ =
      some ⟨rest, { machine with stack := BitVec.ofInt 64 constant :: machine.stack }⟩ := by
  simp only [Config.step?, Machine.execute?, Machine.pushed?, h, if_true]
  rfl

/-! ## Templates -/

theorem leads_plus {a b : Cell} (h : below <:+ stack) :
    Leads clobber program below ⟨plus ++ rest, b :: a :: stack, output⟩
      ⟨rest, (a + b) :: stack, output⟩ := by
  rintro ⟨_, registers, flags, _, _⟩ ⟨⟩
  have h₁ : below <:+ a :: stack := suffix_cons_of_suffix h
  have h₂ : below <:+ b :: a :: stack := suffix_cons_of_suffix h₁
  refine ⟨_, ?_, .head h₂ rfl <| .head h₂ rfl <| .head h₁ rfl <| .head h rfl <| .head h rfl <|
    .refl (suffix_cons_of_suffix h)⟩
  rw [BitVec.add_comm]
  rfl

theorem leads_minus {a b : Cell} (h : below <:+ stack) :
    Leads clobber program below ⟨minus ++ rest, b :: a :: stack, output⟩
      ⟨rest, (a - b) :: stack, output⟩ := by
  rintro ⟨_, registers, flags, _, _⟩ ⟨⟩
  have h₁ : below <:+ a :: stack := suffix_cons_of_suffix h
  have h₂ : below <:+ b :: a :: stack := suffix_cons_of_suffix h₁
  exact ⟨_, rfl, .head h₂ rfl <| .head h₂ rfl <| .head h₁ rfl <| .head h rfl <| .head h rfl <|
    .refl (suffix_cons_of_suffix h)⟩

theorem leads_compare {title : String} {ifEqual ifNot : Int} {a b : Cell}
    (hequal : Operation.mov.takes ifEqual) (hnot : Operation.mov.takes ifNot)
    (h : below <:+ stack) :
    Leads clobber program below ⟨compare title ifEqual ifNot ++ rest, b :: a :: stack, output⟩
      ⟨rest, (if a = b then BitVec.ofInt 64 ifEqual else BitVec.ofInt 64 ifNot) :: stack,
        output⟩ := by
  rintro ⟨_, registers, flags, _, _⟩ ⟨⟩
  have h₁ : below <:+ a :: stack := suffix_cons_of_suffix h
  have h₂ : below <:+ b :: a :: stack := suffix_cons_of_suffix h₁
  refine ⟨_, ?_, .head h₂ rfl <| .head h₂ (step?_mov_constant (by decide) hnot) <|
    .head h₂ (step?_mov_constant (by decide) hequal) <| .head h₂ rfl <| .head h₁ rfl <|
    .head h rfl <| .head h rfl <| .head h rfl <| .refl (suffix_cons_of_suffix h)⟩
  have htop : (if decide (b = a) = true then BitVec.ofInt 64 ifEqual else BitVec.ofInt 64 ifNot) =
      if a = b then BitVec.ofInt 64 ifEqual else BitVec.ofInt 64 ifNot := by
    simp only [decide_eq_true_eq, eq_comm (a := b)]
  rw [← htop]
  rfl

theorem leads_dump {a : Cell} (h : below <:+ stack) :
    Leads clobber program below ⟨dump ++ rest, a :: stack, output⟩
      ⟨rest, stack, output ++ [a]⟩ := by
  rintro ⟨_, registers, flags, _, _⟩ ⟨⟩
  have h₁ : below <:+ a :: stack := suffix_cons_of_suffix h
  exact ⟨_, rfl, .head h₁ rfl <| .head h₁ rfl <| .head h rfl <| .refl h⟩

theorem leads_label {place : Label} (h : below <:+ stack) :
    Leads clobber program below ⟨.label place :: rest, stack, output⟩ ⟨rest, stack, output⟩ := by
  rintro ⟨_, registers, flags, _, _⟩ ⟨⟩
  exact ⟨_, rfl, .head h rfl <| .refl h⟩

/-- A jump on zero goes behind its target or goes on. -/
theorem leads_jumpIfZero {target : Label} {a : Cell} (htarget : behind target program = some after)
    (h : below <:+ stack) :
    Leads clobber program below ⟨jumpIfZero target ++ rest, a :: stack, output⟩
      ⟨if a = 0 then after else rest, stack, output⟩ := by
  rintro ⟨_, registers, flags, _, _⟩ ⟨⟩
  have h₁ : below <:+ a :: stack := suffix_cons_of_suffix h
  by_cases hzero : a = 0
  · rw [if_pos hzero]
    have hholds : Condition.zero.holds ⟨a &&& a = 0, false⟩ = true := by
      simp [Condition.holds, hzero]
    exact ⟨_, rfl, .head h₁ rfl <| .head h₁ rfl <| .head h rfl <|
      .head h (step?_jump hholds htarget) <| .refl h⟩
  · rw [if_neg hzero]
    have hholds : Condition.zero.holds ⟨a &&& a = 0, false⟩ = false := by
      simpa [Condition.holds] using hzero
    exact ⟨_, rfl, .head h₁ rfl <| .head h₁ rfl <| .head h rfl <|
      .head h (step?_jump_of_not hholds) <| .refl h⟩

theorem leads_otherwise {exit landing : Label} (hexit : behind exit program = some after)
    (h : below <:+ stack) :
    Leads clobber program below ⟨otherwise exit landing ++ rest, stack, output⟩
      ⟨after, stack, output⟩ := by
  rintro ⟨_, registers, flags, _, _⟩ ⟨⟩
  exact ⟨_, rfl, .head h rfl <| .head h (step?_jump rfl hexit) <| .refl h⟩

/-- A constant that is too wide for an operand of a push goes through a register. -/
theorem leads_push {value : Cell} (h : below <:+ stack) :
    Leads clobber program below ⟨push value ++ rest, stack, output⟩
      ⟨rest, value :: stack, output⟩ := by
  rintro ⟨_, registers, flags, _, _⟩ ⟨⟩
  have hvalue : BitVec.ofInt 64 value.toInt = value := BitVec.ofInt_toInt
  by_cases hwide : -0x80000000 ≤ value.toInt ∧ value.toInt < 0x80000000
  · have himmediate : isImmediate value.toInt := by simpa [isImmediate] using hwide
    rw [push, if_pos hwide]
    refine ⟨_, ?_, .head h rfl <| .head h (step?_push_constant himmediate) <|
      .refl (suffix_cons_of_suffix h)⟩
    rw [hvalue]
    rfl
  · have htakes : Operation.mov.takes value.toInt := by
      have hlower := BitVec.le_toInt value
      have hupper := BitVec.toInt_lt (x := value)
      simp [Operation.takes]
      omega
    rw [push, if_neg hwide]
    refine ⟨_, ?_, .head h rfl <| .head h (step?_mov_constant (by decide) htakes) <|
      .head h rfl <| .refl (suffix_cons_of_suffix h)⟩
    rw [hvalue]
    rfl

/-- A program ends with code zero, and with the stack and the output that it came to. -/
theorem exits_epilogue {config : Config} (hahead : config.ahead = epilogue)
    (h : below <:+ config.machine.stack) :
    ∃ final : Config, Steps clobber program below config final ∧ final.Exits 0 ∧
      final.machine.stack = config.machine.stack ∧
      final.machine.output = config.machine.output := by
  obtain ⟨_, registers, flags, _, _⟩ := config
  cases hahead
  exact ⟨_, .head h rfl <| .head h rfl <| .head h rfl <| .refl h, ⟨rfl, rfl, rfl⟩, rfl, rfl⟩

end Stacklet.Assembly
