import Stacklet.Proofs.Assembly.Labels

/-! # Reading assembly text

An assembler sees a text, not lines with their instructions. Reading takes the text of a program
apart again: comments, labels by name, and instructions by their mnemonic and operands. Whatever is
made of templates is read back as it was written.
-/

namespace Stacklet.Assembly

/-! ## Reading -/

/-- The number that decimal digits spell. -/
def readNat? (text : List Char) : Option Nat :=
  if text ≠ [] ∧ text.all Char.isDigit then some (digitsValue text) else none

/-- The number that decimal digits spell, perhaps behind a minus sign. -/
def readInt? : List Char → Option Int
  | '-' :: number => (readNat? number).map fun value : Nat => -(value : Int)
  | number => (readNat? number).map Int.ofNat

/-- The label with a name. -/
def Label.read? : List Char → Option Label
  | 'a' :: 'd' :: 'd' :: 'r' :: '_' :: number => (readNat? number).map addr
  | 'b' :: 'r' :: 'a' :: 'n' :: 'c' :: 'h' :: '_' :: number => (readNat? number).map branch
  | text => [dump, digits, main].find? (·.name.toList = text)

/-- The part of a register with a name. -/
def Register.read? (text : List Char) : Option (Width × Register) :=
  [Width.byte, .double, .quad].findSome? fun width =>
    ([rax, rbx, rcx, rdx, rsi, rdi, rsp, r8].find? fun named =>
      (named.name width).toList = text).map (width, ·)

/-- The register of full width with a name. -/
def Register.readQuad? (text : List Char) : Option Register :=
  match read? text with
  | some (.quad, named) => some named
  | _ => none

/-- The address between brackets. -/
def Address.read? (text : List Char) : Option Address := do
  let base ← Register.readQuad? (text.takeWhile (· ≠ '+'))
  let behind := (text.dropWhile (· ≠ '+')).drop 1
  match readNat? behind with
  | some displacement => return .offset base displacement
  | none =>
    let index ← Register.readQuad? (behind.takeWhile (· ≠ '*'))
    let factor ← readNat? ((behind.dropWhile (· ≠ '*')).drop 1)
    return .scaled base index factor

/-- The address in its brackets. -/
def Address.readBracketed? : List Char → Option Address
  | '[' :: text => if text.getLast? = some ']' then read? text.dropLast else none
  | _ => none

/-- The operand that a text is, with its width if the text tells it. -/
def Operand.read? (text : List Char) : Option (Option Width × Operand) :=
  match readInt? text with
  | some value => some (none, .constant value)
  | none =>
    match Register.read? text with
    | some (width, named) => some (some width, .register named)
    | none => do
      let width ← [Width.byte, .double, .quad].find? (·.name.toList = text.takeWhile (· ≠ ' '))
      let address ← Address.readBracketed? ((text.dropWhile (· ≠ ' ')).drop 1)
      return (some width, .memory address)

/-- The operands of an instruction, which have a comma and a blank between them. -/
def operandTexts (text : List Char) : List (List Char) :=
  if text = [] then []
  else
    match text.dropWhile (· ≠ ',') with
    | [] => [text]
    | behind => [text.takeWhile (· ≠ ','), behind.drop 2]

/-- The operation with a name. -/
def Operation.read? (text : List Char) : Option Operation :=
  [mov, add, sub, xor, shr, cmp, test, cmove].find? (·.name.toList = text)

/-- The jump with a name. -/
def Condition.read? (text : List Char) : Option Condition :=
  [always, zero, above].find? (·.name.toList = text)

/-- The instruction with a mnemonic and operands. -/
def Code.ofTexts? (mnemonic : List Char) : List (List Char) → Option Code
  | [] =>
    if mnemonic = ['r', 'e', 't'] then some .ret
    else if mnemonic = ['s', 'y', 's', 'c', 'a', 'l', 'l'] then some .syscall
    else none
  | [operand] =>
    if mnemonic = ['p', 'u', 's', 'h'] then (Operand.read? operand).map fun read => .push read.2
    else if mnemonic = ['p', 'o', 'p'] then (Register.readQuad? operand).map .pop
    else if mnemonic = ['m', 'u', 'l'] then (Register.readQuad? operand).map .mul
    else if mnemonic = ['c', 'a', 'l', 'l'] then (Label.read? operand).map .call
    else do
      let condition ← Condition.read? mnemonic
      let target ← Label.read? operand
      return .jump condition target
  | [destination, source] =>
    if mnemonic = ['l', 'e', 'a'] then do
      let register ← Register.readQuad? destination
      let address ← Address.readBracketed? source
      return .lea register address
    else do
      let operation ← Operation.read? mnemonic
      let (width, destination) ← Operand.read? destination
      let (_, source) ← Operand.read? source
      return .operate operation (← width) destination source
  | _ => none

/-- The instruction in a line. -/
def Code.read? (text : List Char) : Option Code :=
  Code.ofTexts? (text.takeWhile (· ≠ ' '))
    (operandTexts ((text.dropWhile (· ≠ ' ')).dropWhile (· = ' ')))

/-- The line that a text without its end is. -/
def Line.read? : List Char → Option Line
  | ' ' :: ' ' :: ' ' :: ' ' :: text => (Code.read? text).map .code
  | ';' :: ';' :: ' ' :: '-' :: '-' :: ' ' :: text =>
    some (.title (String.ofList (text.take (text.length - 3))))
  | 'e' :: 'n' :: 't' :: 'r' :: 'y' :: ' ' :: text => (Label.read? text).map .entry
  | text =>
    if text.getLast? = some ':' then (Label.read? text.dropLast).map .label
    else [format, segment].find? (·.render.toList = text ++ ['\n'])

/-- The lines that a text is. -/
def read? (text : String) : Option (List Line) :=
  (lines text.toList).mapM Line.read?

/-! ## Numbers and labels -/

theorem toList_toString_nat (value : Nat) : (toString value).toList = Nat.toDigits 10 value :=
  Nat.toList_repr

theorem isDigit_of_mem_toString {value : Nat} {c : Char} (h : c ∈ (toString value).toList) :
    c.isDigit := by
  rw [toList_toString_nat] at h
  exact Nat.isDigit_of_mem_toDigits (by decide) (by decide) h

theorem readNat?_toString (value : Nat) : readNat? (toString value).toList = some value := by
  rw [readNat?, if_pos, digitsValue, toList_toString_nat]
  · rw [← Nat.ofDigitChars_eq_foldl, Nat.ofDigitChars_ten_toDigits]
  · refine ⟨?_, List.all_eq_true.mpr fun c => isDigit_of_mem_toString⟩
    rw [toList_toString_nat]
    exact Nat.toDigits_ne_nil

/-- An integer is written with digits, perhaps behind a minus sign. -/
theorem toList_toString_int (value : Int) :
    (toString value).toList =
      if value < 0 then '-' :: (toString value.natAbs).toList
      else (toString value.natAbs).toList := by
  cases value with
  | ofNat value => rfl
  | negSucc value =>
      rw [if_pos (Int.negSucc_lt_zero value)]
      exact String.toList_append

theorem eq_minus_or_isDigit_of_mem_toString {value : Int} {c : Char}
    (h : c ∈ (toString value).toList) : c = '-' ∨ c.isDigit := by
  rw [toList_toString_int] at h
  split at h
  · rcases List.mem_cons.mp h with rfl | hdigit
    · exact .inl rfl
    · exact .inr (isDigit_of_mem_toString hdigit)
  · exact .inr (isDigit_of_mem_toString h)

theorem readInt?_of_isDigit {text : List Char} (h : ∀ c ∈ text, c.isDigit) :
    readInt? text = (readNat? text).map Int.ofNat := by
  cases text with
  | nil => rfl
  | cons c rest =>
      have hminus : c ≠ '-' := by
        rintro rfl
        exact absurd (h '-' List.mem_cons_self) (by decide)
      rw [readInt?]
      rintro _ ⟨⟩
      exact hminus rfl

theorem readInt?_toString (value : Int) : readInt? (toString value).toList = some value := by
  rw [toList_toString_int]
  split
  next hneg =>
    rw [readInt?, readNat?_toString, Option.map_some, Int.ofNat_natAbs_of_nonpos (by omega),
      Int.neg_neg]
  next hnonneg =>
    rw [readInt?_of_isDigit fun c => isDigit_of_mem_toString, readNat?_toString, Option.map_some,
      Int.ofNat_eq_natCast, Int.natAbs_of_nonneg (by omega)]

theorem toList_name_addr (index : Nat) :
    (Label.addr index).name.toList =
      ['a', 'd', 'd', 'r', '_'] ++ (toString index).toList := by
  rw [Label.name, String.toList_append]
  rfl

theorem toList_name_branch (number : Nat) :
    (Label.branch number).name.toList =
      ['b', 'r', 'a', 'n', 'c', 'h', '_'] ++ (toString number).toList := by
  rw [Label.name, String.toList_append]
  rfl

theorem Label.read?_name (place : Label) : Label.read? place.name.toList = some place := by
  cases place with
  | addr index =>
      rw [toList_name_addr]
      simp only [List.cons_append, List.nil_append, Label.read?, readNat?_toString, Option.map_some]
  | branch number =>
      rw [toList_name_branch]
      simp only [List.cons_append, List.nil_append, Label.read?, readNat?_toString, Option.map_some]
  | dump => simp [Label.read?, Label.name]
  | digits => simp [Label.read?, Label.name]
  | main => simp [Label.read?, Label.name]

/-- A text with nothing in it that parts operands or lines. -/
def IsWhole (text : List Char) : Prop :=
  text ≠ [] ∧ ∀ c ∈ text, c ∉ [' ', ',', '\n', '\r']

-- Named, since a search through all characters would be found as well.
instance (text : List Char) : Decidable (IsWhole text) :=
  @instDecidableAnd _ _ _ (List.decidableBAll _ text)

theorem not_mem_of_isDigit {c : Char} (h : c.isDigit) : c ∉ [' ', ',', '\n', '\r'] := by
  intro hmem
  simp only [List.mem_cons, List.not_mem_nil, or_false] at hmem
  rcases hmem with rfl | rfl | rfl | rfl <;> exact absurd h (by decide)

theorem isWhole_toString (value : Int) : IsWhole (toString value).toList := by
  constructor
  · intro hnil
    have hread := readInt?_toString value
    rw [hnil] at hread
    exact absurd hread (by simp [readInt?, readNat?])
  · intro c hc
    rcases eq_minus_or_isDigit_of_mem_toString hc with rfl | hdigit
    · decide
    · exact not_mem_of_isDigit hdigit

theorem IsWhole.append_digits {front : List Char} (h : IsWhole front) (value : Nat) :
    IsWhole (front ++ (toString value).toList) := by
  refine ⟨List.append_ne_nil_of_left_ne_nil h.1 _, ?_⟩
  intro c hc
  rcases List.mem_append.mp hc with hfront | hdigit
  · exact h.2 c hfront
  · exact not_mem_of_isDigit (isDigit_of_mem_toString hdigit)

theorem isWhole_name (place : Label) : IsWhole place.name.toList := by
  cases place with
  | addr index => exact toList_name_addr index ▸ IsWhole.append_digits (by decide) index
  | branch number => exact toList_name_branch number ▸ IsWhole.append_digits (by decide) number
  | dump => simp [IsWhole, Label.name]
  | digits => simp [IsWhole, Label.name]
  | main => simp [IsWhole, Label.name]

/-! ## Instructions -/

theorem IsWhole.all_ne {text : List Char} (h : IsWhole text) (separator : Char)
    (hseparator : separator ∈ [' ', ',', '\n', '\r']) :
    ∀ c ∈ text, decide (c ≠ separator) = true := by
  intro c hc
  rw [decide_eq_true_eq]
  rintro rfl
  exact h.2 c hc hseparator

theorem IsWhole.head?_ne {text : List Char} (h : IsWhole text) (rest : List Char) :
    (text ++ rest).head? ≠ some ' ' := by
  obtain ⟨hne, hwhole⟩ := h
  cases text with
  | nil => exact absurd rfl hne
  | cons c text =>
      rintro ⟨⟩
      exact hwhole ' ' List.mem_cons_self (by decide)

theorem operandTexts_of_isWhole {text : List Char} (h : IsWhole text) :
    operandTexts text = [text] := by
  have hdrop : (text ++ []).dropWhile (· ≠ ',') = [] :=
    List.dropWhile_append_of_pos (h.all_ne ',' (by decide))
  rw [List.append_nil] at hdrop
  rw [operandTexts, if_neg h.1, hdrop]

theorem operandTexts_pair {destination source : List Char} (h : IsWhole destination) :
    operandTexts (destination ++ ',' :: ' ' :: source) = [destination, source] := by
  have hcomma := h.all_ne ',' (by decide)
  rw [operandTexts, if_neg (by simp), List.dropWhile_append_of_pos hcomma,
    List.takeWhile_append_of_pos hcomma]
  simp

/-- An instruction in its columns is read as its mnemonic and its operands. -/
theorem Code.read?_column {mnemonic operands : String} (hmnemonic : IsWhole mnemonic.toList)
    (hlength : mnemonic.length < 7) (hoperands : operands.toList.head? ≠ some ' ') :
    Code.read? (column mnemonic operands).toList =
      Code.ofTexts? mnemonic.toList (operandTexts operands.toList) := by
  have hblank := hmnemonic.all_ne ' ' (by decide)
  obtain ⟨width, hwidth⟩ : ∃ width, 7 - mnemonic.length = width + 1 :=
    ⟨6 - mnemonic.length, by omega⟩
  have htext : (column mnemonic operands).toList =
      mnemonic.toList ++ ' ' :: (List.replicate width ' ' ++ operands.toList) := by
    simp [column, hwidth, List.replicate_succ]
  have hfirst : operands.toList.dropWhile (· = ' ') = operands.toList := by
    cases hlist : operands.toList with
    | nil => rfl
    | cons c rest =>
        rw [hlist, List.head?_cons] at hoperands
        exact List.dropWhile_cons_of_neg (by simpa using hoperands)
  rw [Code.read?, htext, List.takeWhile_append_of_pos hblank, List.dropWhile_append_of_pos hblank]
  simp [List.dropWhile_append_of_pos, hfirst]

/-- An instruction with one operand in one piece. -/
theorem Code.read?_column_of_isWhole {mnemonic operand : String}
    (hmnemonic : IsWhole mnemonic.toList) (hlength : mnemonic.length < 7)
    (hoperand : IsWhole operand.toList) :
    Code.read? (column mnemonic operand).toList =
      Code.ofTexts? mnemonic.toList [operand.toList] := by
  have hhead := hoperand.head?_ne []
  rw [List.append_nil] at hhead
  rw [Code.read?_column hmnemonic hlength hhead, operandTexts_of_isWhole hoperand]

theorem Operand.read?_toString (value : Int) :
    Operand.read? (toString value).toList = some (none, .constant value) := by
  rw [Operand.read?, readInt?_toString]

theorem Code.read?_push_constant (value : Int) :
    Code.read? (Code.push (.constant value)).render.toList = some (.push (.constant value)) := by
  rw [Code.render, Operand.render,
    Code.read?_column_of_isWhole (by simp [IsWhole]) (by simp [← String.length_toList])
      (isWhole_toString value)]
  change (Operand.read? (toString value).toList).map (fun read => Code.push read.2) = _
  rw [Operand.read?_toString, Option.map_some]

theorem Code.read?_mov_constant (value : Int) :
    Code.read? (Code.operate .mov .quad (.register .rax) (.constant value)).render.toList =
      some (.operate .mov .quad (.register .rax) (.constant value)) := by
  have htext : (s!"{Operand.render .quad (.register .rax)}, " ++
        s!"{Operand.render .quad (.constant value)}").toList =
      ['r', 'a', 'x'] ++ ',' :: ' ' :: (toString value).toList := by
    rw [String.toList_append]
    rfl
  have hrax : IsWhole ['r', 'a', 'x'] := by decide
  have hhead := hrax.head?_ne (',' :: ' ' :: (toString value).toList)
  rw [← htext] at hhead
  have hmnemonic : IsWhole Operation.mov.name.toList ∧ Operation.mov.name.length < 7 := by
    simp [IsWhole, Operation.name, ← String.length_toList]
  rw [Code.render, Code.read?_column hmnemonic.1 hmnemonic.2 hhead]
  change Code.ofTexts? _ (operandTexts (_ ++ _ : String).toList) = _
  have hregister : Operand.read? ['r', 'a', 'x'] = some (some .quad, .register .rax) := by
    simp [Operand.read?, Register.read?, readInt?, readNat?, Register.name]
  have hvalue := Operand.read?_toString value
  rw [htext, operandTexts_pair hrax]
  generalize (toString value).toList = text at hvalue
  simp [Code.ofTexts?, Operation.name, Operation.read?, hregister, hvalue]

theorem Code.read?_jump (condition : Condition) (target : Label) :
    Code.read? (Code.jump condition target).render.toList = some (.jump condition target) := by
  have hmnemonic : IsWhole condition.name.toList ∧ condition.name.length < 7 := by
    cases condition <;> simp [IsWhole, Condition.name, ← String.length_toList]
  rw [Code.render, Code.read?_column_of_isWhole hmnemonic.1 hmnemonic.2 (isWhole_name target)]
  cases condition <;>
    simp [Code.ofTexts?, Condition.name, Condition.read?, Label.read?_name]

/-! ## Lines -/

/-- A text without an end of a line. -/
def IsUnbroken (text : List Char) : Prop :=
  '\n' ∉ text ∧ '\r' ∉ text

instance (text : List Char) : Decidable (IsUnbroken text) :=
  inferInstanceAs (Decidable (_ ∧ _))

theorem IsUnbroken.append {left right : List Char} (hleft : IsUnbroken left)
    (hright : IsUnbroken right) : IsUnbroken (left ++ right) := by
  simp only [IsUnbroken, List.mem_append, not_or]
  exact ⟨⟨hleft.1, hright.1⟩, hleft.2, hright.2⟩

theorem IsWhole.isUnbroken {text : List Char} (h : IsWhole text) : IsUnbroken text :=
  ⟨fun hmem => h.2 _ hmem (by decide), fun hmem => h.2 _ hmem (by decide)⟩

theorem isUnbroken_column {mnemonic operands : String} (hmnemonic : IsUnbroken mnemonic.toList)
    (hoperands : IsUnbroken operands.toList) : IsUnbroken (column mnemonic operands).toList := by
  have hblanks : ∀ count, IsUnbroken (List.replicate count ' ') := by
    intro count
    simp [IsUnbroken]
  rw [column, String.toList_append, String.toList_append, String.toList_ofList]
  exact (hmnemonic.append (hblanks _)).append hoperands

/-- A line whose text is one line of any text and is read as it was written. -/
def Line.Legible (line : Line) : Prop :=
  ∃ text, line.render.toList = text ++ ['\n'] ∧ IsUnbroken text ∧ Line.read? text = some line

theorem Line.legible_iff (line : Line) :
    line.Legible ↔
      line.render.toList = line.render.toList.dropLast ++ ['\n'] ∧
        IsUnbroken line.render.toList.dropLast ∧
        Line.read? line.render.toList.dropLast = some line := by
  constructor
  · rintro ⟨text, htext, h⟩
    rw [htext, List.dropLast_concat]
    exact ⟨rfl, h⟩
  · intro h
    exact ⟨_, h⟩

instance (line : Line) : Decidable line.Legible :=
  decidable_of_iff' _ line.legible_iff

theorem lines_append_newline {text : List Char} (h : IsUnbroken text) (rest : List Char) :
    lines (text ++ '\n' :: rest) = text :: lines rest := by
  induction text with
  | nil => rfl
  | cons c text ih =>
      simp only [IsUnbroken, List.mem_cons, not_or] at h
      rw [List.cons_append, lines, ih ⟨h.1.2, h.2.2⟩]
      · rintro rfl
        exact h.1.1 rfl
      · rintro _ rfl
        exact absurd rfl h.2.1

/-- The text of legible lines is read as the lines. -/
theorem read?_render {program : List Line} (h : ∀ line ∈ program, line.Legible) :
    read? (render program) = some program := by
  induction program with
  | nil => rfl
  | cons line rest ih =>
      obtain ⟨text, htext, hunbroken, hread⟩ := h line List.mem_cons_self
      have hrest := ih fun other hother => h other (List.mem_cons_of_mem line hother)
      have hrender : (render (line :: rest)).toList = text ++ '\n' :: (render rest).toList := by
        simp [render, String.join_cons, htext]
      rw [read?] at hrest ⊢
      rw [hrender, lines_append_newline hunbroken, List.mapM_cons, hread, hrest]
      rfl

theorem Line.read?_concat_colon {c : Char} {text : List Char} (h : c ∉ [' ', ';', 'e']) :
    Line.read? (c :: text ++ [':']) = (Label.read? (c :: text)).map .label := by
  simp only [List.mem_cons, List.not_mem_nil, or_false, not_or] at h
  rw [List.cons_append, Line.read?, ← List.cons_append, List.getLast?_concat, if_pos rfl,
    List.dropLast_concat]
  · intro _ heq
    exact h.1 (List.cons.inj heq).1
  · intro _ heq
    exact h.2.1 (List.cons.inj heq).1
  · intro _ heq
    exact h.2.2 (List.cons.inj heq).1

/-- No name of a label begins like a line of another kind. -/
theorem Line.read?_name (place : Label) :
    Line.read? (place.name.toList ++ [':']) = some (.label place) := by
  obtain ⟨c, text, htext, hc⟩ : ∃ c text, place.name.toList = c :: text ∧ c ∉ [' ', ';', 'e'] := by
    cases place with
    | addr index => exact ⟨_, _, toList_name_addr index, by decide⟩
    | branch number => exact ⟨_, _, toList_name_branch number, by decide⟩
    | dump => exact ⟨_, _, rfl, by decide⟩
    | digits => exact ⟨_, _, rfl, by decide⟩
    | main => exact ⟨_, _, rfl, by decide⟩
  have hname := Label.read?_name place
  rw [htext] at hname ⊢
  rw [Line.read?_concat_colon hc, hname, Option.map_some]

theorem Line.legible_label (place : Label) : (Line.label place).Legible := by
  refine ⟨place.name.toList ++ [':'], ?_, ?_, Line.read?_name place⟩
  · simp [Line.render, ToString.toString]
  · exact (isWhole_name place).isUnbroken.append (by decide)

theorem Line.legible_title {text : String} (h : IsUnbroken text.toList) :
    (Line.title text).Legible := by
  refine ⟨[';', ';', ' ', '-', '-', ' '] ++ (text.toList ++ [' ', '-', '-']), ?_, ?_, ?_⟩
  · simp [Line.render, ToString.toString]
  · exact .append (by decide) (h.append (by decide))
  · simp [Line.read?]

theorem Line.legible_code {code : Code} (h : IsUnbroken code.render.toList)
    (hread : Code.read? code.render.toList = some code) : (Line.code code).Legible := by
  refine ⟨[' ', ' ', ' ', ' '] ++ code.render.toList, ?_, ?_, ?_⟩
  · simp [Line.render, ToString.toString]
  · exact .append (by decide) h
  · simp [Line.read?, hread]

theorem Line.legible_jump (condition : Condition) (target : Label) :
    (Line.code (.jump condition target)).Legible := by
  refine Line.legible_code ?_ (Code.read?_jump condition target)
  refine isUnbroken_column ?_ (isWhole_name target).isUnbroken
  cases condition <;> simp [IsUnbroken, Condition.name]

/-! ## Templates -/

/-- Templates whose lines are the same wherever they stand. -/
def fixedTemplates : List (List Line) :=
  [prologue, epilogue, plus, minus, equal, notEqual, dump, jumpIfZero .main]

theorem legible_fixed : ∀ template ∈ fixedTemplates, ∀ line ∈ template, line.Legible := by
  decide +kernel

theorem legible_push (value : Cell) : ∀ line ∈ push value, line.Legible := by
  have hconstant := (isWhole_toString value.toInt).isUnbroken
  have htitle : (Line.title s!"push {value.toInt}").Legible := by
    apply Line.legible_title
    rw [String.toList_append]
    exact .append (by simp [IsUnbroken, ToString.toString]) hconstant
  have hpush : (Line.code (.push (.constant value.toInt))).Legible :=
    Line.legible_code (isUnbroken_column (by simp [IsUnbroken]) hconstant)
      (Code.read?_push_constant value.toInt)
  have hmov : (quad .mov (.register .rax) (.constant value.toInt)).Legible := by
    refine Line.legible_code (isUnbroken_column (by simp [IsUnbroken, Operation.name]) ?_)
      (Code.read?_mov_constant value.toInt)
    rw [String.toList_append]
    exact .append (by simp [IsUnbroken, Operand.render, Register.name, ToString.toString]) hconstant
  have hrax : (Line.code (.push (.register .rax))).Legible :=
    legible_fixed plus (by simp [fixedTemplates]) _ (by simp [plus])
  rw [push]
  split
  · exact List.forall_mem_cons.mpr ⟨htitle, List.forall_mem_singleton.mpr hpush⟩
  · exact List.forall_mem_cons.mpr
      ⟨htitle, List.forall_mem_cons.mpr ⟨hmov, List.forall_mem_singleton.mpr hrax⟩⟩

theorem legible_jumpIfZero (target : Label) : ∀ line ∈ jumpIfZero target, line.Legible := by
  have hfixed := legible_fixed (jumpIfZero .main) (by simp [fixedTemplates])
  simp only [jumpIfZero, List.forall_mem_cons] at hfixed ⊢
  obtain ⟨htitle, hpop, htest, -⟩ := hfixed
  exact ⟨htitle, hpop, htest, Line.legible_jump .zero target, List.forall_mem_nil _⟩

theorem legible_otherwise (exit landing : Label) :
    ∀ line ∈ otherwise exit landing, line.Legible := by
  have htitle : (Line.title "else").Legible := Line.legible_title (by simp [IsUnbroken])
  exact List.forall_mem_cons.mpr ⟨htitle, List.forall_mem_cons.mpr
    ⟨Line.legible_jump .always exit, List.forall_mem_singleton.mpr (Line.legible_label landing)⟩⟩

end Stacklet.Assembly
