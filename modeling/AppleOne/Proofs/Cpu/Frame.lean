import AppleOne.Proofs.Bus.Flat
import AppleOne.Proofs.Cpu.Execution
import AppleOne.Proofs.Cpu.Passage

/-!
# What an instruction leaves alone

Each part of the registers has its operations, and no other instruction changes it. Memory is
written at the effective address, by stores and by operations that change their operand in
place, or on the stack; most instructions write nothing at all, among them every opcode outside
the documented set. The latches of the interrupts are left alone by all of them.

When the negative and zero flags are set from a result, they tell its bit 7 and whether it is
zero.

## Main definitions

* `Registers.Part`, and `Registers.Part.changers`: the operations of a part.
* `Instruction.Changes`: the parts that an instruction may change.
* `Instruction.writesTo`: the addresses to which an instruction writes.
* `Instruction.result?`: the result from which the negative and zero flags are set.
* `Looks`: ways to look at memory.

## Main results

* `keeps_effect`, `keeps_outcome`: the parts that operations and instructions leave alone.
* `writes_outcome`: where instructions write.
* `look_step`: memory elsewhere looks the same.
* `shows_outcome`: how the negative and zero flags are set.
* `frame_step`: all of it, for a step that enters no interrupt handler.
-/

namespace AppleOne.Cpu

/-! ## The parts of the registers -/

/-- A part of the registers that instructions change on purpose. -/
inductive Registers.Part where
  | a
  | x
  | y
  | sp
  | negative
  | zero
  | carry
  | overflow
  | decimal
  | interruptDisable
  deriving DecidableEq, Repr

namespace Registers.Part

/-- What a part holds, as a number. -/
def value (r : Registers) : Part → Nat
  | a => r.a.toNat
  | x => r.x.toNat
  | y => r.y.toNat
  | sp => r.sp.toNat
  | negative => r.flags.negative.toNat
  | zero => r.flags.zero.toNat
  | carry => r.flags.carry.toNat
  | overflow => r.flags.overflow.toNat
  | decimal => r.flags.decimal.toNat
  | interruptDisable => r.flags.interruptDisable.toNat

end Registers.Part

/-- The operations that move bits by one place. -/
def Operation.shifts : List Operation := [.asl, .lsr, .rol, .ror]

/-- The operations that set the negative and zero flags. -/
def Operation.testers : List Operation :=
  shifts ++ [.lda, .ldx, .ldy, .tax, .tay, .txa, .tya, .tsx, .and, .ora, .eor, .inc, .dec, .inx,
    .dex, .iny, .dey, .cmp, .cpx, .cpy, .adc, .sbc, .bit, .pla, .plp, .rti]

/-- The operations that change a part, whatever their mode is. -/
def Registers.Part.changers : Part → List Operation
  | a => [.adc, .and, .eor, .ora, .sbc, .lda, .pla, .txa, .tya]
  | x => [.ldx, .inx, .dex, .tax, .tsx]
  | y => [.ldy, .iny, .dey, .tay]
  | sp => [.txs, .pha, .php, .pla, .plp, .jsr, .rts, .brk, .rti]
  | negative | zero => Operation.testers
  | carry => Operation.shifts ++ [.adc, .sbc, .cmp, .cpx, .cpy, .clc, .sec, .plp, .rti]
  | overflow => [.adc, .sbc, .bit, .clv, .plp, .rti]
  | decimal => [.cld, .sed, .plp, .rti]
  | interruptDisable => [.cli, .sei, .brk, .plp, .rti]

open Registers

/-- An instruction may change a part if its operation is among those of the part. Shifts change
the accumulator if that is their operand. -/
def Instruction.Changes (instruction : Instruction) (part : Part) : Prop :=
  instruction.operation ∈ part.changers ∨
    part = .a ∧ instruction.operation ∈ Operation.shifts ∧ instruction.mode = .accumulator

/-! ## Frames of registers -/

/-- The parts of some kind are the same before and after. -/
def Registers.Keeps (kept : Part → Prop) (before after : Registers) : Prop :=
  ∀ part, kept part → part.value after = part.value before

variable {kept : Part → Prop} {before after : Registers}

/-- Neither cycles nor the program counter are among the parts. -/
theorem Registers.Keeps.congr (h : before.Keeps kept after) {other : Registers}
    (hsame : { other with pc := after.pc, cycles := after.cycles } = after) :
    before.Keeps kept other := by
  intro part hpart
  have hafter := h part hpart
  rw [← hsame] at hafter
  rw [← hafter]
  cases part <;> rfl

/-- The parts of some kind are left alone by what an operation does. -/
def Effect.Keeps (kept : Part → Prop) : Effect → Prop
  | load apply => ∀ value r, Registers.Keeps kept r (apply value r)
  | modify apply => ∀ value r, Registers.Keeps kept r { r with flags := (apply value r.flags).2 }
  | internal apply => ∀ r, Registers.Keeps kept r (apply r)
  | pull apply => ¬ kept .sp ∧ ∀ value r, Registers.Keeps kept r (apply value r)
  | push _ | call | returnFromCall => ¬ kept .sp
  | softwareInterrupt => ¬ kept .sp ∧ ¬ kept .interruptDisable
  | returnFromInterrupt =>
    ¬ kept .sp ∧ ∀ status r, Registers.Keeps kept r (r.withStatus status)
  | store _ | branch _ | jump => True

/-- Addition leaves two flags alone. -/
theorem flags_add (a m : UInt8) (flags : Flags) :
    (Arithmetic.add a m flags).2.decimal = flags.decimal ∧
      (Arithmetic.add a m flags).2.interruptDisable = flags.interruptDisable := by
  unfold Arithmetic.add
  split <;> exact ⟨rfl, rfl⟩

/-- No operation changes a part that is not its own, apart from the accumulator in the place of
an operand. -/
theorem keeps_effect {operation : Operation}
    (hkept : ∀ part, kept part → operation ∉ part.changers) : operation.effect.Keeps kept := by
  cases operation with
  | adc =>
    intro value r part hpart
    -- which addition it is depends on a flag, so computation alone does not get past it
    obtain ⟨hdecimal, hdisable⟩ := flags_add r.a value r.flags
    cases part with
    | x | y | sp => rfl
    | decimal => exact congrArg Bool.toNat hdecimal
    | interruptDisable => exact congrArg Bool.toNat hdisable
    | _ => exact absurd (by decide) (hkept _ hpart)
  | sbc | and | ora | eor | cmp | cpx | cpy | bit | lda | ldx | ldy | asl | lsr | rol | ror | inc
  | dec =>
    intro value r part hpart
    -- a part is either the same by computation, or it has this operation among its own
    cases part <;> first | rfl | exact absurd (by decide) (hkept _ hpart)
  | inx | dex | iny | dey | tax | tay | txa | tya | tsx | txs | clc | sec | cld | sed | cli | sei
  | clv | nop | undocumented =>
    intro r part hpart
    cases part <;> first | rfl | exact absurd (by decide) (hkept _ hpart)
  | pla | plp | rti =>
    refine ⟨fun hsp => absurd (by decide) (hkept _ hsp), fun value r part hpart => ?_⟩
    cases part <;> first | rfl | exact absurd (by decide) (hkept _ hpart)
  | pha | php | jsr | rts => exact fun hsp => absurd (by decide) (hkept _ hsp)
  | brk =>
    exact ⟨fun hsp => absurd (by decide) (hkept _ hsp),
      fun hdisable => absurd (by decide) (hkept _ hdisable)⟩
  | sta | stx | sty | bcc | bcs | bne | beq | bpl | bmi | bvc | bvs | jmp => trivial

section Outcome

variable {M : Type} [Memory M] {instruction : Instruction}

theorem Registers.Keeps.trans {first second third : Registers} (h : first.Keeps kept second)
    (h' : second.Keeps kept third) : first.Keeps kept third :=
  fun part hpart => (h' part hpart).trans (h part hpart)

theorem keeps_self (r : Registers) : r.Keeps kept r := fun _ _ => rfl

theorem keeps_sp (h : ¬ kept .sp) (r : Registers) (sp : UInt8) : r.Keeps kept { r with sp } := by
  intro part hpart
  cases part with
  | sp => exact absurd hpart h
  | _ => rfl

theorem keeps_a (h : ¬ kept .a) (r : Registers) (a : UInt8) : r.Keeps kept { r with a } := by
  intro part hpart
  cases part with
  | a => exact absurd hpart h
  | _ => rfl

theorem keeps_interruptDisable (h : ¬ kept .interruptDisable) (r : Registers) (flag : Bool) :
    r.Keeps kept { r with flags := { r.flags with interruptDisable := flag } } := by
  intro part hpart
  cases part with
  | interruptDisable => exact absurd hpart h
  | _ => rfl

/-- What the operation leaves alone, the instruction leaves alone, but for an operand in the
accumulator. -/
theorem keeps_outcome (hkeeps : instruction.operation.effect.Keeps kept)
    (haccumulator : instruction.mode = .accumulator →
      (∃ apply, instruction.operation.effect = .modify apply) → ¬ kept .a)
    (r : Registers) (memory : M) : r.Keeps kept (instruction.outcome r memory).1 := by
  -- the class moves the program counter, counts cycles and moves the stack pointer by itself
  cases heffect : instruction.operation.effect with
  | load apply =>
    rw [heffect] at hkeeps
    rw [outcome_load r memory heffect]
    exact (hkeeps _ r).congr rfl
  | store value =>
    rw [outcome_store r memory heffect]
    exact (keeps_self r).congr rfl
  | modify apply =>
    rw [heffect] at hkeeps
    by_cases hmode : instruction.mode = .accumulator
    · rw [outcome_modify_accumulator r memory heffect hmode]
      exact ((hkeeps r.a r).trans
        (keeps_a (haccumulator hmode ⟨apply, heffect⟩) _ (apply r.a r.flags).1)).congr rfl
    · rw [outcome_modify r memory heffect hmode]
      exact (hkeeps _ r).congr rfl
  | internal apply =>
    rw [heffect] at hkeeps
    rw [outcome_internal r memory heffect]
    exact (hkeeps r).congr rfl
  | branch taken =>
    rw [outcome_branch r memory heffect]
    cases taken r.flags with
    | true => exact (keeps_self r).congr rfl
    | false => exact (keeps_self r).congr rfl
  | push value =>
    rw [heffect] at hkeeps
    rw [outcome_push r memory heffect]
    exact (keeps_sp hkeeps r (r.sp - 1)).congr rfl
  | pull apply =>
    rw [heffect] at hkeeps
    obtain ⟨hsp, happly⟩ := hkeeps
    rw [outcome_pull r memory heffect]
    exact ((keeps_sp hsp r (r.sp + 1)).trans (happly _ _)).congr rfl
  | jump =>
    rw [outcome_jump r memory heffect]
    exact (keeps_self r).congr rfl
  | call =>
    rw [heffect] at hkeeps
    obtain ⟨target, houtcome⟩ := outcome_call r memory heffect
    rw [houtcome]
    exact (keeps_sp hkeeps r (r.sp - 1 - 1)).congr rfl
  | returnFromCall =>
    rw [heffect] at hkeeps
    obtain ⟨pc, houtcome⟩ := outcome_returnFromCall r memory heffect
    rw [houtcome]
    exact (keeps_sp hkeeps r (r.sp + 1 + 1)).congr rfl
  | softwareInterrupt =>
    rw [heffect] at hkeeps
    obtain ⟨hsp, hdisable⟩ := hkeeps
    obtain ⟨pc, houtcome⟩ := outcome_softwareInterrupt r memory heffect
    rw [houtcome]
    exact ((keeps_sp hsp r (r.sp - 1 - 1 - 1)).trans
      (keeps_interruptDisable hdisable _ true)).congr rfl
  | returnFromInterrupt =>
    rw [heffect] at hkeeps
    obtain ⟨hsp, hstatus⟩ := hkeeps
    obtain ⟨pc, status, houtcome⟩ := outcome_returnFromInterrupt r memory heffect
    rw [houtcome]
    exact ((hstatus status r).trans (keeps_sp hsp _ (r.sp + 1 + 1 + 1))).congr rfl

/-- Of the operations with an operand in the accumulator, all are shifts. -/
theorem shifts_of_accumulator (opcode : UInt8) :
    (Instruction.decode opcode).mode = .accumulator →
      (Instruction.decode opcode).operation ∈ Operation.shifts := by
  have hmatrix : ∀ row ∈ Instruction.matrix, ∀ instruction ∈ row,
      instruction.mode = .accumulator → instruction.operation ∈ Operation.shifts := by decide
  exact forall_decode hmatrix opcode

/-- No instruction changes a part that is not its own. -/
theorem keeps_decode (opcode : UInt8) (r : Registers) (memory : M) :
    r.Keeps (fun part => ¬ (Instruction.decode opcode).Changes part)
      ((Instruction.decode opcode).outcome r memory).1 :=
  keeps_outcome (keeps_effect fun _ hpart hmem => hpart (.inl hmem))
    (fun hmode _ hnot => hnot (.inr ⟨rfl, shifts_of_accumulator opcode hmode, hmode⟩)) r memory

/-! ## Where instructions write -/

/-- A slot of the stack lies in page one. -/
theorem toNat_stackAddress (sp : UInt8) : (stackAddress sp).toNat = 256 + sp.toNat := by
  rw [stackAddress, UInt16.toNat_or, UInt8.toNat_toUInt16]
  exact (Nat.two_pow_add_eq_or_of_lt sp.toNat_lt 1).symm

/-- The addresses to which an instruction writes, in order: its effective address, or slots of
the stack in page one. -/
def Instruction.writesTo (instruction : Instruction) (r : Registers) (effective : UInt16) :
    List Nat :=
  match instruction.operation with
  | .sta | .stx | .sty | .inc | .dec => [effective.toNat]
  | .asl | .lsr | .rol | .ror =>
    if instruction.mode = .accumulator then [] else [effective.toNat]
  | .pha | .php => [256 + r.sp.toNat]
  | .jsr => [256 + r.sp.toNat, 256 + (r.sp - 1).toNat]
  | .brk => [256 + r.sp.toNat, 256 + (r.sp - 1).toNat, 256 + (r.sp - 1 - 1).toNat]
  | _ => []

theorem writes_outcome (h : instruction.mode = .accumulator →
      instruction.operation ∈ Operation.shifts) (r : Registers) (memory : M) :
    (instruction.outcome r memory).2.map (·.1.toNat) =
      instruction.writesTo r ((locate r instruction.mode).run memory).1.address := by
  unfold Instruction.writesTo
  cases hop : instruction.operation with
  | adc | sbc | and | ora | eor | cmp | cpx | cpy | bit | lda | ldx | ldy =>
    rw [outcome_load r memory (congrArg Operation.effect hop)]
    rfl
  | sta | stx | sty =>
    rw [outcome_store r memory (congrArg Operation.effect hop)]
    rfl
  | asl | lsr | rol | ror =>
    by_cases hmode : instruction.mode = .accumulator
    · rw [outcome_modify_accumulator r memory (congrArg Operation.effect hop) hmode]
      exact (if_pos hmode).symm
    · rw [outcome_modify r memory (congrArg Operation.effect hop) hmode]
      exact (if_neg hmode).symm
  | inc | dec =>
    -- these are not shifts, so their operand is in memory
    have hmode : instruction.mode ≠ .accumulator := by
      intro hmode
      have hshift := h hmode
      rw [hop] at hshift
      exact absurd hshift (by decide)
    rw [outcome_modify r memory (congrArg Operation.effect hop) hmode]
    rfl
  | inx | dex | iny | dey | tax | tay | txa | tya | tsx | txs | clc | sec | cld | sed | cli | sei
  | clv | nop | undocumented =>
    rw [outcome_internal r memory (congrArg Operation.effect hop)]
    rfl
  | bcc | bcs | bne | beq | bpl | bmi | bvc | bvs =>
    rw [outcome_branch r memory (congrArg Operation.effect hop)]
    rfl
  | pha | php =>
    rw [outcome_push r memory (congrArg Operation.effect hop)]
    exact congrArg (fun address => [address]) (toNat_stackAddress r.sp)
  | pla | plp =>
    rw [outcome_pull r memory (congrArg Operation.effect hop)]
    rfl
  | jmp =>
    rw [outcome_jump r memory (congrArg Operation.effect hop)]
    rfl
  | jsr =>
    obtain ⟨target, houtcome⟩ := outcome_call r memory (congrArg Operation.effect hop)
    simp only [houtcome, List.map_cons, List.map_nil, toNat_stackAddress]
  | rts =>
    obtain ⟨pc, houtcome⟩ := outcome_returnFromCall r memory (congrArg Operation.effect hop)
    rw [houtcome]
    rfl
  | brk =>
    obtain ⟨pc, houtcome⟩ := outcome_softwareInterrupt r memory (congrArg Operation.effect hop)
    simp only [houtcome, List.map_cons, List.map_nil, toNat_stackAddress]
  | rti =>
    obtain ⟨pc, status, houtcome⟩ :=
      outcome_returnFromInterrupt r memory (congrArg Operation.effect hop)
    rw [houtcome]
    rfl

/-! ## The negative and zero flags -/

/-- The flags tell bit 7 of one byte, and whether another one is zero. -/
def Flags.Shows (flags : Flags) (signed tested : UInt8) : Prop :=
  flags.negative = decide (128 ≤ signed.toNat) ∧ flags.zero = decide (tested = 0)

theorem and_sign_ne_zero (b : UInt8) : (b &&& 0x80 != 0) = decide (128 ≤ b.toNat) := by
  have hall : ∀ n < 256, (n.toUInt8 &&& 0x80 != 0) = decide (128 ≤ n) := by decide +kernel
  have hb := hall b.toNat b.toNat_lt
  rwa [Nat.toUInt8, UInt8.ofNat_toNat] at hb

theorem shows_ofResult (flags : Flags) (result : UInt8) :
    (flags.ofResult result).Shows result result :=
  ⟨and_sign_ne_zero result, rfl⟩

/-- The two bytes from which an instruction sets the negative and the zero flag. They are one and
the same, which is mostly found in a register or in memory afterwards, except in decimal
addition: there the sign is that of the sum before its high digit is corrected, and the binary
sum is tested. A difference is binary in either mode. -/
def Instruction.results? (instruction : Instruction) (before after : Registers)
    (operand : UInt8) (written : List (UInt16 × UInt8)) : Option (UInt8 × UInt8) :=
  let both (result : UInt8) : UInt8 × UInt8 := (result, result)
  match instruction.operation with
  | .lda | .and | .ora | .eor | .txa | .tya | .pla => some (both after.a)
  | .ldx | .inx | .dex | .tax | .tsx => some (both after.x)
  | .ldy | .iny | .dey | .tay => some (both after.y)
  | .asl | .lsr | .rol | .ror | .inc | .dec =>
    if instruction.mode = .accumulator then some (both after.a)
    else written.head?.map fun write => both write.2
  | .cmp => some (both (before.a - operand))
  | .cpx => some (both (before.x - operand))
  | .cpy => some (both (before.y - operand))
  | .sbc =>
    if before.flags.decimal then
      some (both (before.a - operand - if before.flags.carry then 0 else 1))
    else some (both after.a)
  | .adc =>
    if before.flags.decimal then
      some (UInt8.ofNat
          (Arithmetic.decimalSum before.a.toNat operand.toNat before.flags.carry.toNat),
        before.a + operand + if before.flags.carry then 1 else 0)
    else some (both after.a)
  | _ => none

theorem toNat_complement (m : UInt8) : (~~~m).toNat = 255 - m.toNat := by
  rw [UInt8.toNat_not]
  rfl

/-- Adding the complement subtracts. -/
theorem toUInt8_add_complement (a m : UInt8) (carry : Bool) :
    (a.toNat + (~~~m).toNat + carry.toNat).toUInt8 = a - m - if carry then 0 else 1 := by
  have ha := a.toNat_lt
  have hm := m.toNat_lt
  apply UInt8.toNat_inj.mp
  cases carry with
  | true =>
    rw [UInt8.toNat_ofNat', UInt8.toNat_sub, UInt8.toNat_sub, toNat_complement, if_pos rfl,
      UInt8.toNat_zero, Bool.toNat_true]
    omega
  | false =>
    rw [UInt8.toNat_ofNat', UInt8.toNat_sub, UInt8.toNat_sub, toNat_complement, if_neg (by simp),
      UInt8.toNat_one, Bool.toNat_false]
    omega

theorem toUInt8_add_carry (a m : UInt8) (carry : Bool) :
    (a.toNat + m.toNat + carry.toNat).toUInt8 = a + m + if carry then 1 else 0 := by
  apply UInt8.toNat_inj.mp
  cases carry with
  | true =>
    rw [UInt8.toNat_ofNat', UInt8.toNat_add, UInt8.toNat_add, if_pos rfl, UInt8.toNat_one,
      Bool.toNat_true]
    omega
  | false =>
    rw [UInt8.toNat_ofNat', UInt8.toNat_add, UInt8.toNat_add, if_neg (by simp),
      UInt8.toNat_zero, Bool.toNat_false]
    omega

/-- Decimal addition looks at two different sums. -/
theorem shows_addDecimal (a m : UInt8) (flags : Flags) :
    (Arithmetic.addDecimal a m flags).2.Shows
      (UInt8.ofNat (Arithmetic.decimalSum a.toNat m.toNat flags.carry.toNat))
      (a + m + if flags.carry then 1 else 0) := by
  rw [← toUInt8_add_carry]
  exact ⟨rfl, rfl⟩

/-- Subtraction looks at the binary difference in either mode. -/
theorem shows_subtract (a m : UInt8) (flags : Flags) :
    (Arithmetic.subtract a m flags).2.Shows (a - m - if flags.carry then 0 else 1)
      (a - m - if flags.carry then 0 else 1) := by
  rw [← toUInt8_add_complement]
  exact shows_ofResult flags _

/-- Every result that an instruction has is what the negative and zero flags show. -/
theorem shows_outcome {r : Registers} {memory : M} {signed tested : UInt8}
    (h : instruction.results? r (instruction.outcome r memory).1
      ((loadOperand instruction.mode r).run memory).1.1 (instruction.outcome r memory).2 =
        some (signed, tested)) :
    (instruction.outcome r memory).1.flags.Shows signed tested := by
  unfold Instruction.results? at h
  cases hop : instruction.operation with
  | lda | ldx | ldy | and | ora | eor | cmp | cpx | cpy =>
    rw [outcome_load r memory (congrArg Operation.effect hop)] at h ⊢
    rw [hop] at h
    obtain ⟨rfl, rfl⟩ := Prod.mk.inj (Option.some.inj h)
    exact shows_ofResult r.flags _
  | adc =>
    rw [outcome_load r memory (congrArg Operation.effect hop)] at h ⊢
    rw [hop] at h
    simp only [Registers.accumulate, Registers.finish] at h ⊢
    -- in decimal mode the two flags are not set from what the accumulator is left with
    cases hdecimal : r.flags.decimal with
    | true =>
      simp only [hdecimal, Arithmetic.add, if_true] at h ⊢
      obtain ⟨rfl, rfl⟩ := Prod.mk.inj (Option.some.inj h)
      exact shows_addDecimal _ _ _
    | false =>
      simp only [hdecimal, Arithmetic.add, Bool.false_eq_true, if_false] at h ⊢
      obtain ⟨rfl, rfl⟩ := Prod.mk.inj (Option.some.inj h)
      exact shows_ofResult r.flags _
  | sbc =>
    rw [outcome_load r memory (congrArg Operation.effect hop)] at h ⊢
    rw [hop] at h
    simp only [Registers.accumulate, Registers.finish] at h ⊢
    cases hdecimal : r.flags.decimal with
    | true =>
      simp only [hdecimal, if_true] at h
      obtain ⟨rfl, rfl⟩ := Prod.mk.inj (Option.some.inj h)
      exact shows_subtract _ _ _
    | false =>
      simp only [hdecimal, Arithmetic.subtract, Bool.false_eq_true, if_false] at h ⊢
      obtain ⟨rfl, rfl⟩ := Prod.mk.inj (Option.some.inj h)
      exact shows_ofResult r.flags _
  | asl | lsr | rol | ror | inc | dec =>
    rw [hop] at h
    -- the result is left in the accumulator, or it is the byte that is written to memory
    by_cases hmode : instruction.mode = .accumulator
    · rw [outcome_modify_accumulator r memory (congrArg Operation.effect hop) hmode] at h ⊢
      simp only [if_pos hmode] at h
      obtain ⟨rfl, rfl⟩ := Prod.mk.inj (Option.some.inj h)
      exact shows_ofResult r.flags _
    · rw [outcome_modify r memory (congrArg Operation.effect hop) hmode] at h ⊢
      simp only [if_neg hmode] at h
      obtain ⟨rfl, rfl⟩ := Prod.mk.inj (Option.some.inj h)
      exact shows_ofResult r.flags _
  | inx | dex | iny | dey | tax | tay | txa | tya | tsx =>
    rw [outcome_internal r memory (congrArg Operation.effect hop)] at h ⊢
    rw [hop] at h
    obtain ⟨rfl, rfl⟩ := Prod.mk.inj (Option.some.inj h)
    exact shows_ofResult r.flags _
  | pla =>
    rw [outcome_pull r memory (congrArg Operation.effect hop)] at h ⊢
    rw [hop] at h
    obtain ⟨rfl, rfl⟩ := Prod.mk.inj (Option.some.inj h)
    exact shows_ofResult r.flags _
  | _ =>
    rw [hop] at h
    cases h

end Outcome

/-! ## Memory -/

section Memory

variable {M : Type} [Memory M] {look : M → UInt16 → UInt8} {address : UInt16}

/-- A way to look at memory that neither reads nor messages disturb, and writes only where they
go. -/
structure Looks (look : M → UInt16 → UInt8) : Prop where
  read : ∀ memory address, look (Memory.read memory address).2 = look memory
  write : ∀ memory address value other, other ≠ address →
    look (Memory.write memory address value) other = look memory other
  report : ∀ memory note, look (Memory.report memory note) = look memory

/-- The bytes of plain storage. -/
theorem looks_get : Looks PlainMemory.get where
  read _ _ := rfl
  write memory address value other hne :=
    (PlainMemory.get_set memory address other value).trans (if_neg hne)
  report _ _ := rfl

/-- Where a transaction does not write, memory looks the same. -/
theorem Looks.run {α : Type} (hlook : Looks look) (transaction : Transaction α) {memory : M}
    (h : ∀ write ∈ transaction.writes memory, write.1 ≠ address) :
    look (transaction.run memory).2 address = look memory address := by
  induction transaction generalizing memory with
  | done result => rfl
  | read other next ih => exact (ih _ h).trans (congrFun (hlook.read memory other) address)
  | write other value next ih =>
    obtain ⟨hother, hnext⟩ := List.forall_mem_cons.mp h
    exact (ih hnext).trans (hlook.write memory other value address hother.symm)

end Memory

/-! ## Steps -/

section Step

variable {M σ : Type} [Memory M] (cpu : Cpu M σ)

/-- The address to which the mode of the instruction leads. -/
def effectiveAddress : UInt16 := ((locate cpu.registers cpu.current.mode).run cpu.fetched).1.address

/-- The byte that the instruction reads as its operand. -/
def operand : UInt8 := ((loadOperand cpu.current.mode cpu.registers).run cpu.fetched).1.1

variable {cpu}

theorem look_step {look : M → UInt16 → UInt8} (hlook : Looks look)
    (hran : cpu.step.1.wasRefused = false) {address : UInt16}
    (h : address.toNat ∉ cpu.written.map (·.1.toNat)) :
    look cpu.step.2.memory address = look cpu.memory address := by
  have hrun : look (cpu.registers.step.run cpu.memory).2 address = look cpu.memory address := by
    refine hlook.run _ fun write hwrite heq => h ?_
    exact List.mem_map.mpr ⟨write, hwrite, congrArg UInt16.toNat heq⟩
  obtain ⟨memo, hstep⟩ := exists_step_eq_advance hran
  rw [hstep, advance_eq, ← hrun]
  simp only [memoryAfter]
  -- what comes after the accesses is at most the report of an opcode
  split
  · split
    · rfl
    · exact congrFun (hlook.report _ _) address
  · rfl

/-- An instruction changes only what it is there to change: parts of the registers by their own
operations, memory by stores and by operations that change it in place at the effective address
or on the stack, and the latches of the interrupts not at all. Negative and zero flags that are
set from a result show it. -/
theorem frame_step (hdue : cpu.registers.due? = none) (hran : cpu.step.1.wasRefused = false) :
    (∀ part, ¬ cpu.current.Changes part →
      part.value cpu.step.2.registers = part.value cpu.registers) ∧
    (cpu.step.2.registers.irqPending = cpu.registers.irqPending ∧
      cpu.step.2.registers.nmiPending = cpu.registers.nmiPending) ∧
    cpu.written.map (·.1.toNat) = cpu.current.writesTo cpu.registers cpu.effectiveAddress ∧
    (∀ look, Looks look → ∀ address : UInt16,
      address.toNat ∉ cpu.current.writesTo cpu.registers cpu.effectiveAddress →
        look cpu.step.2.memory address = look cpu.memory address) ∧
    ∀ signed tested,
      cpu.current.results? cpu.registers cpu.step.2.registers cpu.operand cpu.written =
          some (signed, tested) →
        cpu.step.2.registers.flags.Shows signed tested := by
  have houtcome := outcome_current hdue hran
  have hafter : (cpu.current.outcome cpu.registers cpu.fetched).1 = cpu.step.2.registers :=
    congrArg Prod.fst houtcome
  have hwritten : (cpu.current.outcome cpu.registers cpu.fetched).2 = cpu.written :=
    congrArg Prod.snd houtcome
  have hwrites : cpu.written.map (·.1.toNat) =
      cpu.current.writesTo cpu.registers cpu.effectiveAddress := by
    rw [← hwritten]
    exact writes_outcome (shifts_of_accumulator _) cpu.registers cpu.fetched
  obtain ⟨_, -, hpassed⟩ := (returns_executeInstruction cpu.current cpu.registers).run cpu.fetched
  have hpassed : cpu.registers.Passed _ (cpu.current.outcome cpu.registers cpu.fetched).1 := hpassed
  rw [hafter] at hpassed
  refine ⟨?_, ⟨hpassed.irqPending, hpassed.nmiPending⟩, hwrites, ?_, ?_⟩
  · rw [← hafter]
    exact keeps_decode _ cpu.registers cpu.fetched
  · intro look hlook address haddress
    rw [← hwrites] at haddress
    exact look_step hlook hran haddress
  · intro signed tested hresults
    rw [← hafter, ← hwritten] at hresults
    rw [← hafter]
    exact shows_outcome hresults

/-- A byte in page zero is incremented: no other byte changes, and the flags show the sum. -/
theorem frame_step_increment :
    let cpu : Cpu PlainMemory Unit :=
      { registers := .initial
        memory := (PlainMemory.zeros 0).load 0 [0xE6, 0x10]
        memo := () }
    (∀ address, address ≠ 0x10 → cpu.step.2.memory.get address = cpu.memory.get address) ∧
      cpu.step.2.registers.flags.Shows 1 1 := by
  intro cpu
  have hcurrent : cpu.current = ⟨.inc, .zeroPage, 5⟩ := by decide +kernel
  have hlocation : cpu.effectiveAddress = 0x10 := by decide +kernel
  have hwritten : cpu.written = [(0x10, 1)] := by decide +kernel
  have hdue : cpu.registers.due? = none := rfl
  obtain ⟨-, -, -, hbytes, hshows⟩ := frame_step hdue rfl
  rw [hcurrent, hlocation] at hbytes
  rw [hcurrent, hwritten] at hshows
  refine ⟨fun address hne => hbytes _ looks_get address fun hmem => hne ?_, hshows 1 1 rfl⟩
  exact UInt16.toNat_inj.mp (List.mem_singleton.mp hmem)

end Step

end AppleOne.Cpu
