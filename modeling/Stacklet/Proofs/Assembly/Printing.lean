import Stacklet.Proofs.Assembly.Processor
import Stacklet.Proofs.Assembly.Reading

/-! # The routine that prints a number

The routine divides by ten as long as there are digits, without an instruction for division, and
puts them into its frame from right to left. A round of its loop takes one digit from the number and
keeps what the frame holds already; so after as many rounds as there are digits the frame holds the
decimal text of the number before a newline, which is written in one go.
-/

namespace Stacklet.Assembly

open Register Code

/-- The bytes of a text in ASCII. -/
def asciiBytes (text : List Char) : List (BitVec 8) :=
  text.map fun c => BitVec.ofNat 8 c.toNat

namespace Printing

/-! ## The parts of the routine -/

/-- Makes the frame, with the newline at its end. -/
def entryCodes : List Code :=
  [.operate .mov .quad r8 (.constant (-3689348814741910323)),
    .operate .sub .quad rsp (.constant 40),
    .operate .mov .byte (.memory (.offset rsp 31)) (.constant 10),
    .lea rcx (.offset rsp 30)]

/-- Takes a digit from the number. -/
def roundCodes : List Code :=
  [.operate .mov .quad rax rdi,
    .mul r8,
    .operate .mov .quad rax rdi,
    .operate .shr .quad rdx (.constant 3),
    .lea rsi (.scaled rdx rdx 4),
    .operate .add .quad rsi rsi,
    .operate .sub .quad rax rsi,
    .operate .mov .quad rsi rcx,
    .operate .sub .quad rcx (.constant 1),
    .operate .add .double rax (.constant 48),
    .operate .mov .byte (.memory (.offset rcx 1)) rax,
    .operate .mov .quad rax rdi,
    .operate .mov .quad rdi rdx,
    .operate .cmp .quad rax (.constant 9)]

/-- Writes the text and takes the frame away. -/
def exitCodes : List Code :=
  [.lea rdx (.offset rsp 32),
    .operate .mov .double rdi (.constant 1),
    .operate .xor .double rax rax,
    .operate .sub .quad rdx rsi,
    .operate .mov .quad rax (.constant 1),
    .syscall,
    .operate .add .quad rsp (.constant 40)]

/-- The lines behind the loop. -/
def exitLines : List Line :=
  exitCodes.map .code ++ [.code .ret]

/-- The lines from the start of the loop on. -/
def loopLines : List Line :=
  roundCodes.map .code ++ .code (.jump .above .digits) :: exitLines

/-- The lines of the routine behind its name. -/
def bodyLines : List Line :=
  entryCodes.map .code ++ .label .digits :: loopLines

theorem behind_dump : behind .dump dumpRoutine = some bodyLines := rfl

theorem behind_digits : behind .digits dumpRoutine = some loopLines := rfl

/-! ## Arithmetic -/

/-- The inverse of ten, rounded up: multiplied with it, eight times the quotient is in the upper
half of the product. -/
def inverse : Cell := BitVec.ofInt 64 (-3689348814741910323)

theorem toNat_quotient (number : Cell) :
    (BitVec.ofNat 64 (number.toNat * inverse.toNat / 2 ^ 64) >>> 3).toNat = number.toNat / 10 := by
  have hinverse : inverse.toNat = 14757395258967641293 := by decide
  have hnumber := number.isLt
  rw [hinverse]
  have hhigh : number.toNat * 14757395258967641293 / 2 ^ 64 < 2 ^ 64 := by omega
  rw [BitVec.toNat_ushiftRight, BitVec.toNat_ofNat, Nat.mod_eq_of_lt hhigh,
    Nat.shiftRight_eq_div_pow]
  omega

theorem toNat_remainder {number quotient : Cell} (h : quotient.toNat = number.toNat / 10) :
    (number - (quotient + quotient * 4 + (quotient + quotient * 4))).toNat = number.toNat % 10 := by
  have hnumber := number.isLt
  have hten : (quotient + quotient * 4 + (quotient + quotient * 4)).toNat =
      number.toNat / 10 * 10 := by
    simp only [BitVec.toNat_add, BitVec.toNat_mul, h]
    have hfour : (4 : Cell).toNat = 4 := rfl
    rw [hfour]
    omega
  rw [BitVec.toNat_sub, hten]
  omega

theorem toNat_digitChar : ∀ digit < 10, (Nat.digitChar digit).toNat = digit + 48 := by
  decide

/-- The low byte of a digit and the character zero is the character of the digit. -/
theorem setWidth_digit {value : Cell} {digit : Nat} (hdigit : digit < 10)
    (h : value.toNat = digit) :
    (((value.setWidth 32 + 48#32).setWidth 64).setWidth 8 : BitVec 8) =
      BitVec.ofNat 8 (Nat.digitChar digit).toNat := by
  apply BitVec.eq_of_toNat_eq
  rw [toNat_digitChar digit hdigit]
  simp only [BitVec.toNat_setWidth, BitVec.toNat_add, BitVec.toNat_ofNat, h]
  omega

/-! ## The frame -/

/-- Where the frame of the routine begins. -/
def frame (start : Processor) : Cell :=
  start.registers .rsp - 40

/-- The forty bytes of the frame. -/
def InFrame (start : Processor) (address : Cell) : Prop :=
  ∃ offset < 40, address = frame start + BitVec.ofNat 64 offset

theorem add_ofNat_inj {base : Cell} {left right : Nat} (hleft : left < 2 ^ 64)
    (hright : right < 2 ^ 64) (h : base + BitVec.ofNat 64 left = base + BitVec.ofNat 64 right) :
    left = right := by
  have hvalues := congrArg BitVec.toNat (BitVec.add_right_inj base |>.mp h)
  rwa [BitVec.toNat_ofNat, BitVec.toNat_ofNat, Nat.mod_eq_of_lt hleft, Nat.mod_eq_of_lt hright]
    at hvalues

theorem add_one_add_ofNat (base : Cell) (offset : Nat) :
    base + 1 + BitVec.ofNat 64 offset = base + BitVec.ofNat 64 (offset + 1) := by
  rw [BitVec.add_assoc, BitVec.add_comm 1, BitVec.ofNat_add]
  rfl

theorem bytesAt_congr {memory other : Cell → BitVec 8} {address : Cell} {count : Nat}
    (h : ∀ offset < count, other (address + BitVec.ofNat 64 offset) =
      memory (address + BitVec.ofNat 64 offset)) :
    bytesAt other address count = bytesAt memory address count := by
  induction count generalizing address with
  | zero => rfl
  | succ count ih =>
      have hfirst := h 0 (Nat.zero_lt_succ count)
      rw [BitVec.add_zero] at hfirst
      rw [bytesAt, bytesAt, hfirst, ih]
      intro offset hoffset
      rw [add_one_add_ofNat]
      exact h (offset + 1) (Nat.succ_lt_succ hoffset)

/-- The frame holds bytes up to the newline, nothing was stored outside of it, and nothing was
given to the operating system yet. -/
structure Buffered (start processor : Processor) (first : Nat) (bytes : List (BitVec 8)) :
    Prop where
  rsp_eq : processor.registers .rsp = frame start
  bytes_eq : bytesAt processor.memory (frame start + BitVec.ofNat 64 first) bytes.length = bytes
  first_add_length : first + bytes.length = 32
  stores_eq : ∃ stores, processor.stores = stores ++ start.stores ∧
    ∀ address ∈ stores, InFrame start address
  memory_eq : ∀ address, ¬ InFrame start address →
    processor.memory address = start.memory address
  transfers_eq : processor.transfers = start.transfers

variable {leeway : Leeway} {start processor : Processor} {first : Nat} {bytes : List (BitVec 8)}

/-- A byte is put before the others. -/
theorem Buffered.store (h : Buffered start processor (first + 1) bytes) (byte : BitVec 8) :
    Buffered start (processor.store (frame start + BitVec.ofNat 64 first) byte) first
      (byte :: bytes) := by
  have hlength := h.first_add_length
  have hfirst : first < 40 := by omega
  refine ⟨h.rsp_eq, ?_, ?_, ?_, ?_, h.transfers_eq⟩
  · have hnext : frame start + BitVec.ofNat 64 first + 1 =
        frame start + BitVec.ofNat 64 (first + 1) := by
      rw [BitVec.ofNat_add, BitVec.add_assoc]
      rfl
    have hrest : bytesAt (processor.store (frame start + BitVec.ofNat 64 first) byte).memory
        (frame start + BitVec.ofNat 64 (first + 1)) bytes.length = bytes := by
      apply (bytesAt_congr _).trans h.bytes_eq
      intro offset hoffset
      simp only [Processor.store]
      rw [BitVec.add_assoc, ← BitVec.ofNat_add]
      apply if_neg
      intro heq
      have := add_ofNat_inj (by omega) (by omega) heq
      omega
    rw [List.length_cons, bytesAt, hnext, hrest]
    simp only [Processor.store, if_pos]
  · rw [List.length_cons]
    omega
  · obtain ⟨stores, hstores, hframe⟩ := h.stores_eq
    refine ⟨(frame start + BitVec.ofNat 64 first) :: stores, ?_, ?_⟩
    · rw [Processor.store, hstores, List.cons_append]
    · intro address haddress
      rcases List.mem_cons.mp haddress with rfl | haddress
      · exact ⟨first, hfirst, rfl⟩
      · exact hframe address haddress
  · intro address haddress
    have hne : address ≠ frame start + BitVec.ofNat 64 first := by
      rintro rfl
      exact haddress ⟨first, hfirst, rfl⟩
    simp only [Processor.store, if_neg hne]
    exact h.memory_eq address haddress

/-- Flags and the other registers do not matter. -/
theorem Buffered.congr {other : Processor} (h : Buffered start processor first bytes)
    (hrsp : other.registers .rsp = processor.registers .rsp)
    (hmemory : other.memory = processor.memory) (hstores : other.stores = processor.stores)
    (htransfers : other.transfers = processor.transfers) :
    Buffered start other first bytes := by
  refine ⟨hrsp.trans h.rsp_eq, ?_, h.first_add_length, ?_, ?_, htransfers.trans h.transfers_eq⟩
  · rw [hmemory]
    exact h.bytes_eq
  · rw [hstores]
    exact h.stores_eq
  · rw [hmemory]
    exact h.memory_eq

/-! ## The loop -/

/-- What holds at the start of the loop: the value is still to be printed, before the bytes. -/
structure Pending (start processor : Processor) (value first : Nat) (bytes : List (BitVec 8)) :
    Prop where
  buffered : Buffered start processor first bytes
  r8_eq : processor.registers .r8 = inverse
  rcx_add_one : processor.registers .rcx + 1 = frame start + BitVec.ofNat 64 first
  toNat_rdi : (processor.registers .rdi).toNat = value

/-- The quotient as a round computes it. -/
def quotient (processor : Processor) : Cell :=
  let product := (processor.registers .rdi).toNat * (processor.registers .r8).toNat
  BitVec.ofNat 64 (product / 2 ^ 64) >>> 3

/-- The character as a round computes it. -/
def character (processor : Processor) : BitVec 8 :=
  let five := quotient processor + quotient processor * 4
  let digit := processor.registers .rdi - (five + five)
  ((digit.setWidth 32 + 48#32).setWidth 64).setWidth 8

theorem executeAll?_roundCodes (leeway : Leeway) (processor : Processor) :
    ∃ after, processor.executeAll? leeway roundCodes = some after ∧
      after.registers .rsp = processor.registers .rsp ∧
      after.registers .r8 = processor.registers .r8 ∧
      after.registers .rcx = processor.registers .rcx - 1 ∧
      after.registers .rsi = processor.registers .rcx ∧
      after.registers .rdi = quotient processor ∧
      after.flags = ⟨processor.registers .rdi = 9, processor.registers .rdi < 9⟩ ∧
      after.memory =
        (processor.store (processor.registers .rcx - 1 + 1) (character processor)).memory ∧
      after.stores = (processor.registers .rcx - 1 + 1) :: processor.stores ∧
      after.transfers = processor.transfers :=
  ⟨_, rfl, rfl, rfl, rfl, rfl, rfl, rfl, rfl, rfl, rfl⟩

variable {value : Nat}

/-- A round moves the last digit of the value to the bytes, and compares the value with nine. -/
theorem Pending.round (leeway : Leeway)
    (h : Pending start processor value (first + 1) bytes) :
    ∃ after, processor.executeAll? leeway roundCodes = some after ∧
      Pending start after (value / 10) first
        (BitVec.ofNat 8 (Nat.digitChar (value % 10)).toNat :: bytes) ∧
      after.registers .rsi = frame start + BitVec.ofNat 64 first ∧
      (Condition.above.holds after.flags ↔ 10 ≤ value) := by
  obtain ⟨after, hafter, hrsp, hr8, hrcx, hrsi, hrdi, hflags, hmemory, hstores, htransfers⟩ :=
    executeAll?_roundCodes leeway processor
  have haddress : processor.registers .rcx = frame start + BitVec.ofNat 64 first := by
    have := h.rcx_add_one
    rw [BitVec.ofNat_add, ← BitVec.add_assoc] at this
    exact (BitVec.add_left_inj 1#64).mp this
  rw [BitVec.sub_add_cancel, haddress] at hmemory hstores
  have hquotient : (quotient processor).toNat = (processor.registers .rdi).toNat / 10 := by
    rw [quotient, h.r8_eq]
    exact toNat_quotient _
  have hcharacter : character processor = BitVec.ofNat 8 (Nat.digitChar (value % 10)).toNat := by
    apply setWidth_digit (Nat.mod_lt value (by decide))
    rw [← h.toNat_rdi]
    exact toNat_remainder hquotient
  rw [hcharacter] at hmemory
  refine ⟨after, hafter, ⟨?_, hr8.trans h.r8_eq, ?_, ?_⟩, hrsi.trans haddress, ?_⟩
  · exact (h.buffered.store _).congr hrsp hmemory hstores htransfers
  · rw [hrcx, BitVec.sub_add_cancel, haddress]
  · rw [hrdi, hquotient, h.toNat_rdi]
  · have hnine : (9 : Cell).toNat = 9 := rfl
    rw [hflags]
    simp only [Condition.holds, Bool.and_eq_true, Bool.not_eq_true', decide_eq_false_iff_not,
      BitVec.lt_def, ← BitVec.toNat_inj, hnine, h.toNat_rdi]
    omega

/-- A round is one pass from the start of the loop to the jump back. -/
theorem rounds_roundCodes {after : Processor}
    (h : processor.executeAll? leeway roundCodes = some after) :
    Rounds leeway dumpRoutine loopLines 1 (.within loopLines, processor)
      (.within (.code (.jump .above .digits) :: exitLines), after) := by
  rw [roundCodes, Processor.executeAll?] at h
  obtain ⟨middle, hcode, hcodes⟩ := Option.bind_eq_some_iff.mp h
  apply Rounds.enter _ (Processor.rounds_of_executeAll? hcodes _)
  · simp only [loopLines, roundCodes, List.map_cons, List.cons_append, Processor.step?, hcode,
      Option.map_some]
  · exact .inr (by decide)

theorem rounds_jump (leeway : Leeway) (h : Condition.above.holds processor.flags) :
    Rounds leeway dumpRoutine loopLines 0
      (.within (.code (.jump .above .digits) :: exitLines), processor)
      (.within loopLines, processor) := by
  apply Rounds.pass (by decide) _ .refl
  rw [Processor.step?, if_pos h, behind_digits, Option.map_some]

theorem rounds_fall (leeway : Leeway) (h : ¬ Condition.above.holds processor.flags) :
    Rounds leeway dumpRoutine loopLines 0
      (.within (.code (.jump .above .digits) :: exitLines), processor)
      (.within exitLines, processor) := by
  apply Rounds.pass (by decide) _ .refl
  rw [Processor.step?, if_neg h]

/-- The loop takes as many rounds as the value has digits, and puts them before the bytes. -/
theorem Pending.loop (leeway : Leeway)
    (h : Pending start processor value (first + (Nat.toDigits 10 value).length) bytes) :
    ∃ after, Rounds leeway dumpRoutine loopLines (Nat.toDigits 10 value).length
        (.within loopLines, processor) (.within exitLines, after) ∧
      Buffered start after first (asciiBytes (Nat.toDigits 10 value) ++ bytes) ∧
      after.registers .rsi = frame start + BitVec.ofNat 64 first := by
  induction value using Nat.strongRecOn generalizing processor bytes with
  | ind value ih =>
      rcases Nat.lt_or_ge value 10 with hvalue | hvalue
      · rw [Nat.toDigits_of_lt_base hvalue] at h ⊢
        obtain ⟨after, hafter, hpending, hrsi, hflags⟩ := h.round leeway
        rw [Nat.mod_eq_of_lt hvalue] at hpending
        have hfall := rounds_fall leeway (mt hflags.mp (Nat.not_le_of_lt hvalue))
        exact ⟨after, (rounds_roundCodes hafter).trans hfall, hpending.buffered, hrsi⟩
      · rw [Nat.toDigits_of_base_le (by decide) hvalue] at h ⊢
        rw [List.length_append, List.length_singleton] at h ⊢
        obtain ⟨middle, hmiddle, hpending, -, hflags⟩ := h.round leeway
        obtain ⟨after, hrounds, hbuffered, hrsi⟩ :=
          ih (value / 10) (Nat.div_lt_self (by omega) (by decide)) hpending
        have hjump := rounds_jump leeway (hflags.mpr hvalue)
        refine ⟨after, ?_, ?_, hrsi⟩
        · rw [Nat.add_comm]
          exact ((rounds_roundCodes hmiddle).trans hjump).trans hrounds
        · simpa [asciiBytes] using hbuffered

/-! ## Before and behind the loop -/

theorem executeAll?_entryCodes (leeway : Leeway) (start : Processor) :
    ∃ after, start.executeAll? leeway entryCodes = some after ∧
      after.registers .rsp = frame start ∧
      after.registers .r8 = inverse ∧
      after.registers .rcx = frame start + BitVec.ofNat 64 30 ∧
      after.registers .rdi = start.registers .rdi ∧
      after.memory = (start.store (frame start + BitVec.ofNat 64 31) 10).memory ∧
      after.stores = (frame start + BitVec.ofNat 64 31) :: start.stores ∧
      after.transfers = start.transfers :=
  ⟨_, rfl, rfl, rfl, rfl, rfl, rfl, rfl, rfl⟩

/-- At the loop the frame is there, with nothing but the newline in it. -/
theorem rounds_entry (leeway : Leeway) (start : Processor) :
    ∃ after, Rounds leeway dumpRoutine loopLines 0 (.within bodyLines, start)
        (.within loopLines, after) ∧
      Pending start after (start.registers .rdi).toNat 31 (asciiBytes ['\n']) := by
  obtain ⟨after, hafter, hrsp, hr8, hrcx, hrdi, hmemory, hstores, htransfers⟩ :=
    executeAll?_entryCodes leeway start
  have hempty : Buffered start (start.write .rsp (frame start)) 32 [] :=
    ⟨rfl, rfl, rfl, ⟨[], rfl, nofun⟩, fun _ _ => rfl, rfl⟩
  have hlabel : Rounds leeway dumpRoutine loopLines 0
      (.within (.label .digits :: loopLines), after) (.within loopLines, after) :=
    .pass (by decide) rfl .refl
  refine ⟨after, ?_, ?_, hr8, ?_, by rw [hrdi]⟩
  · exact (Processor.rounds_of_executeAll? hafter (.inl (by decide))).trans hlabel
  · exact (hempty.store 10).congr hrsp hmemory hstores htransfers
  · rw [hrcx, BitVec.add_assoc]
    rfl

theorem executeAll?_exitCodes (leeway : Leeway) (processor : Processor) :
    ∃ after, processor.executeAll? leeway exitCodes = some after ∧
      after.registers .rsp = processor.registers .rsp + 40 ∧
      after.memory = processor.memory ∧ after.stores = processor.stores ∧
      after.transfers = ⟨1, bytesAt processor.memory (processor.registers .rsi)
        (processor.registers .rsp + BitVec.ofNat 64 32 - processor.registers .rsi).toNat⟩ ::
          processor.transfers :=
  ⟨_, rfl, rfl, rfl, rfl, rfl⟩

/-- The stack pointer at the start is behind the frame. -/
theorem frame_add_ofNat (start : Processor) (above : Nat) :
    start.registers .rsp + BitVec.ofNat 64 above =
      frame start + BitVec.ofNat 64 (40 + above) := by
  rw [BitVec.ofNat_add, ← BitVec.add_assoc]
  exact congrArg (· + _) (BitVec.sub_add_cancel _ _).symm

/-- What is above the stack pointer at the start is not in the frame. -/
theorem not_inFrame_add (start : Processor) {above : Nat} (h : 40 + above < 2 ^ 64) :
    ¬ InFrame start (start.registers .rsp + BitVec.ofNat 64 above) := by
  rintro ⟨offset, hoffset, heq⟩
  rw [frame_add_ofNat] at heq
  have := add_ofNat_inj h (by omega) heq
  omega

/-- The bytes are written, and the routine returns to where it was called. -/
theorem Buffered.exit (leeway : Leeway) (h : Buffered start processor first bytes)
    (hrsi : processor.registers .rsi = frame start + BitVec.ofNat 64 first) :
    ∃ final, Rounds leeway dumpRoutine loopLines 0 (.within exitLines, processor)
        (.returned (quadAt start.memory (start.registers .rsp)), final) ∧
      final.transfers = ⟨1, bytes⟩ :: start.transfers ∧
      final.registers .rsp = start.registers .rsp + 8 ∧
      final.memory = processor.memory ∧ final.stores = processor.stores := by
  obtain ⟨after, hafter, hrsp, hmemory, hstores, htransfers⟩ :=
    executeAll?_exitCodes leeway processor
  have htop : after.registers .rsp = start.registers .rsp := by
    rw [hrsp, h.rsp_eq, frame, BitVec.sub_add_cancel]
  have hcount : (processor.registers .rsp + BitVec.ofNat 64 32 -
      processor.registers .rsi).toNat = bytes.length := by
    have hlength := h.first_add_length
    rw [h.rsp_eq, hrsi, ← hlength, BitVec.ofNat_add, ← BitVec.add_assoc, BitVec.add_comm,
      BitVec.add_sub_cancel, BitVec.toNat_ofNat]
    omega
  have hquad : quadAt after.memory (start.registers .rsp) =
      quadAt start.memory (start.registers .rsp) := by
    rw [quadAt, quadAt, bytesAt_congr]
    intro offset hoffset
    rw [hmemory]
    exact h.memory_eq _ (not_inFrame_add start (by omega))
  have hreturn : Rounds leeway dumpRoutine loopLines 0 (.within [.code .ret], after)
      (.returned (quadAt start.memory (start.registers .rsp)),
        after.write .rsp (start.registers .rsp + 8)) := by
    apply Rounds.pass (by decide) _ .refl
    rw [Processor.step?, htop, hquad]
  refine ⟨_, (Processor.rounds_of_executeAll? hafter (.inr (by decide))).trans hreturn, ?_, rfl,
    hmemory, hstores⟩
  have hbytes := h.bytes_eq
  rw [← hrsi, ← hcount] at hbytes
  exact htransfers.trans (by rw [hbytes, h.transfers_eq])

/-- What is not below the stack pointer at the start is not in the frame, if that has room below. -/
theorem not_inFrame_of_le {address : Cell} (hroom : 40 ≤ (start.registers .rsp).toNat)
    (h : start.registers .rsp ≤ address) : ¬ InFrame start address := by
  have haddress : address = start.registers .rsp +
      BitVec.ofNat 64 (address.toNat - (start.registers .rsp).toNat) := by
    apply BitVec.eq_of_toNat_eq
    rw [BitVec.toNat_add, BitVec.toNat_ofNat]
    have := BitVec.le_def.mp h
    omega
  rw [haddress]
  exact not_inFrame_add start (by omega)

/-- Whatever number and stack pointer the routine is called with, its text is a program that comes
to its loop once for each decimal digit and then returns to the address on top of the stack. On the
way it writes once, to the standard output, the number in decimal and a newline. It stores nothing
outside of the forty bytes below the stack pointer, so the rest of the memory is as before: all that
comes at or above the stack pointer until the addresses wrap around to the frame, and so all that
has no smaller address, if the frame does not wrap around itself. -/
theorem dump_prints_decimal (leeway : Leeway) (start : Processor) :
    ∃ program entry loop final, read? (render dumpRoutine) = some program ∧
      behind .dump program = some entry ∧ behind .digits program = some loop ∧
      Rounds leeway program loop (toString (start.registers .rdi).toNat).length
        (.within entry, start)
        (.returned (quadAt start.memory (start.registers .rsp)), final) ∧
      final.transfers =
        ⟨1, asciiBytes ((toString (start.registers .rdi).toNat).toList ++ ['\n'])⟩ ::
          start.transfers ∧
      final.registers .rsp = start.registers .rsp + 8 ∧
      (∃ stores, final.stores = stores ++ start.stores ∧
        ∀ address ∈ stores, InFrame start address) ∧
      (∀ address, ¬ InFrame start address → final.memory address = start.memory address) ∧
      (∀ above, 40 + above < 2 ^ 64 →
        final.memory (start.registers .rsp + BitVec.ofNat 64 above) =
          start.memory (start.registers .rsp + BitVec.ofNat 64 above)) ∧
      (40 ≤ (start.registers .rsp).toNat → ∀ address, start.registers .rsp ≤ address →
        final.memory address = start.memory address) := by
  have hlegible : ∀ line ∈ dumpRoutine, line.Legible := by
    intro line hline
    apply legible_fixed prologue (by decide)
    exact List.mem_append_left _ (List.mem_append_right _ hline)
  obtain ⟨entered, hentry, hpending⟩ := rounds_entry leeway start
  have hdigits : (Nat.toDigits 10 (start.registers .rdi).toNat).length ≤ 20 := by
    have := (start.registers .rdi).isLt
    exact (Nat.length_toDigits_le_iff (by decide) (by decide)).mpr (by omega)
  obtain ⟨first, hfirst⟩ : ∃ first,
      31 = first + (Nat.toDigits 10 (start.registers .rdi).toNat).length :=
    ⟨31 - (Nat.toDigits 10 (start.registers .rdi).toNat).length, by omega⟩
  rw [hfirst] at hpending
  obtain ⟨left, hloop, hbuffered, hrsi⟩ := hpending.loop leeway
  obtain ⟨final, hexit, htransfers, hrsp, hmemory, hstores⟩ := hbuffered.exit leeway hrsi
  have hrest : ∀ address, ¬ InFrame start address →
      final.memory address = start.memory address := by
    rw [hmemory]
    exact hbuffered.memory_eq
  refine ⟨_, _, _, final, read?_render hlegible, behind_dump, behind_digits, ?_, ?_, hrsp, ?_,
    hrest, fun above h => hrest _ (not_inFrame_add start h),
    fun hroom address h => hrest address (not_inFrame_of_le hroom h)⟩
  · rw [← String.length_toList, toList_toString_nat]
    simpa using (hentry.trans hloop).trans hexit
  · rw [htransfers, toList_toString_nat, asciiBytes, asciiBytes, asciiBytes, List.map_append]
  · rw [hstores]
    exact hbuffered.stores_eq

end Printing

end Stacklet.Assembly
