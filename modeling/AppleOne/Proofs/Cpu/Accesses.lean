import AppleOne.Proofs.Cpu.Interrupts
import AppleOne.Proofs.Cpu.Timing

/-!
# The accesses of a step

Reading a device register has effects of its own, so it matters which accesses a step makes, and
in which order. An instruction reads its opcode, then each of its operand bytes once, then the
two bytes of a pointer if its mode has one. What follows depends on the operation: it may read
the effective address, write it, or read it and write it back; it may push and pull. Nothing else
happens on the bus, and no byte is read twice.

The accesses are written down here as a table over modes and operations, in which the bytes that
are met stand as parameters. On a memory that answers each read in turn, the table leaves one list
of accesses for a step.

## Main definitions

* `Cpu.traced`: a processor whose memory keeps its accesses.
* `Instruction.Bytes`, `Instruction.accesses`: the table.
* `Answered`: the bytes that were read are those that the memory had to give.

## Main results

* `step_traced`: keeping the accesses changes nothing else.
* `accesses_locate`: the accesses on the way to an operand in memory.
* `accesses_executeInstruction`: instructions make the accesses of the table.
* `accesses_step`: the accesses of any step.
-/

namespace AppleOne.Cpu

/-! ## The table -/

/-- The bytes that an instruction may meet, by the part that they play. -/
structure Instruction.Bytes where
  /-- The first byte after the opcode. -/
  low : UInt8
  /-- The second byte after the opcode. -/
  high : UInt8
  /-- The low byte of an address found in memory: by a pointer, in a vector or on the stack. -/
  foundLow : UInt8
  /-- The high byte of that address. -/
  foundHigh : UInt8
  /-- The byte at the effective address, or a single byte from the stack. -/
  value : UInt8

open Instruction (Bytes)

namespace AddressingMode

/-- The operand bytes are read in order. -/
def operandReads (mode : AddressingMode) (pc : UInt16) (bytes : Bytes) : List Access :=
  [Access.read (pc + 1) bytes.low, Access.read (pc + 2) bytes.high].take mode.operandSize

/-- A pointer is read low byte first; its high byte lies in the same page, which is page zero
for the indexed modes. -/
def pointerReads (mode : AddressingMode) (r : Registers) (bytes : Bytes) : List Access :=
  match mode with
  | indirect =>
    [.read (word bytes.low bytes.high) bytes.foundLow,
      .read (word (bytes.low + 1) bytes.high) bytes.foundHigh]
  | indirectX =>
    [.read (bytes.low + r.x).toUInt16 bytes.foundLow,
      .read (bytes.low + r.x + 1).toUInt16 bytes.foundHigh]
  | indirectY =>
    [.read bytes.low.toUInt16 bytes.foundLow, .read (bytes.low + 1).toUInt16 bytes.foundHigh]
  | _ => []

/-- The effective address of the modes whose operand lies in memory elsewhere. -/
def effective? (mode : AddressingMode) (r : Registers) (bytes : Bytes) : Option UInt16 :=
  match mode with
  | implied | accumulator | immediate | relative => none
  | zeroPage => some bytes.low.toUInt16
  | zeroPageX => some (bytes.low + r.x).toUInt16
  | zeroPageY => some (bytes.low + r.y).toUInt16
  | absolute => some (word bytes.low bytes.high)
  | absoluteX => some (word bytes.low bytes.high + r.x.toUInt16)
  | absoluteY => some (word bytes.low bytes.high + r.y.toUInt16)
  | indirect | indirectX => some (word bytes.foundLow bytes.foundHigh)
  | indirectY => some (word bytes.foundLow bytes.foundHigh + r.y.toUInt16)

/-- Whether the operand lies in memory elsewhere. -/
def inMemory : AddressingMode → Bool
  | implied | accumulator | immediate | relative => false
  | _ => true

end AddressingMode

/-- The byte that is written back by an operation that changes its operand in place. -/
def Operation.changed (operation : Operation) (value : UInt8) (carry : Bool) : UInt8 :=
  match operation with
  | asl => value <<< 1
  | lsr => value >>> 1
  | rol => value <<< 1 ||| if carry then 0x01 else 0
  | ror => value >>> 1 ||| if carry then 0x80 else 0
  | inc => value + 1
  | dec => value - 1
  | _ => value

namespace Instruction

/-- The accesses that follow those of the mode. -/
def operationAccesses (instruction : Instruction) (r : Registers) (bytes : Bytes) : List Access :=
  let target := (instruction.mode.effective? r bytes).toList
  match instruction.operation with
  | .adc | .and | .bit | .cmp | .cpx | .cpy | .eor | .ora | .sbc | .lda | .ldx | .ldy =>
    target.map (.read · bytes.value)
  | .sta => target.map (.write · r.a)
  | .stx => target.map (.write · r.x)
  | .sty => target.map (.write · r.y)
  | .asl | .lsr | .rol | .ror | .inc | .dec =>
    target.flatMap fun address => [.read address bytes.value,
      .write address (instruction.operation.changed bytes.value r.flags.carry)]
  | .pha => [.write (stackAddress r.sp) r.a]
  | .php => [.write (stackAddress r.sp) r.pushedStatus]
  | .pla | .plp => [.read (stackAddress (r.sp + 1)) bytes.value]
  | .jsr =>
    [.write (stackAddress r.sp) ((r.pc + 2) >>> 8).toUInt8,
      .write (stackAddress (r.sp - 1)) (r.pc + 2).toUInt8]
  | .rts =>
    [.read (stackAddress (r.sp + 1)) bytes.foundLow,
      .read (stackAddress (r.sp + 2)) bytes.foundHigh]
  | .rti =>
    [.read (stackAddress (r.sp + 1)) bytes.value, .read (stackAddress (r.sp + 2)) bytes.foundLow,
      .read (stackAddress (r.sp + 3)) bytes.foundHigh]
  | .brk =>
    [.write (stackAddress r.sp) ((r.pc + 2) >>> 8).toUInt8,
      .write (stackAddress (r.sp - 1)) (r.pc + 2).toUInt8,
      .write (stackAddress (r.sp - 2)) r.pushedStatus,
      .read irqVector bytes.foundLow, .read (irqVector + 1) bytes.foundHigh]
  | _ => []

/-- The accesses of an instruction after its opcode. -/
def accesses (instruction : Instruction) (r : Registers) (bytes : Bytes) : List Access :=
  instruction.mode.operandReads r.pc bytes ++ instruction.mode.pointerReads r bytes ++
    instruction.operationAccesses r bytes

/-- The modes that go with an operation. -/
def Fits (instruction : Instruction) : Prop :=
  match instruction.operation with
  | .adc | .and | .bit | .cmp | .cpx | .cpy | .eor | .ora | .sbc | .lda | .ldx | .ldy =>
    instruction.mode = .immediate ∨ instruction.mode.inMemory = true
  | .asl | .lsr | .rol | .ror =>
    instruction.mode = .accumulator ∨ instruction.mode.inMemory = true
  | .sta | .stx | .sty | .inc | .dec => instruction.mode.inMemory = true
  | .bcc | .bcs | .bne | .beq | .bpl | .bmi | .bvc | .bvs => instruction.mode = .relative
  | .jmp => instruction.mode = .absolute ∨ instruction.mode = .indirect
  | .jsr => instruction.mode = .absolute
  | _ => instruction.mode = .implied

instance : DecidablePred Fits := fun instruction => by
  unfold Fits
  split <;> infer_instance

end Instruction

/-- Every instruction of the set has a mode that goes with its operation. -/
theorem fits_decode (opcode : UInt8) : (Instruction.decode opcode).Fits := by
  have hmatrix : ∀ row ∈ Instruction.matrix, ∀ instruction ∈ row, instruction.Fits := by decide
  exact forall_decode hmatrix opcode

/-! ## Pages -/

/-- A number of two bytes is put together from them without carries. -/
theorem mul_or (high : Nat) {low : Nat} (h : low < 256) :
    high * 256 ||| low = high * 256 + low := by
  rw [Nat.mul_comm]
  exact (Nat.two_pow_add_eq_or_of_lt (i := 8) h high).symm

/-- The address that follows within a page differs in the low byte only. -/
theorem nextInPage_word (low high : UInt8) : nextInPage (word low high) = word (low + 1) high := by
  have hlow := low.toNat_lt
  have hhigh := high.toNat_lt
  have hword := toNat_word low high
  have hpage : (word low high &&& (0xFF00 : UInt16)).toNat = high.toNat * 256 := by
    have hmask : ∀ n < 256, n * 256 &&& 0xFF00 = n * 256 ∧ n &&& 0xFF00 = 0 := by decide +kernel
    rw [UInt16.toNat_and, hword, ← mul_or _ hlow, Nat.and_or_distrib_right]
    show _ &&& 0xFF00 ||| _ &&& 0xFF00 = _
    rw [(hmask _ hhigh).1, (hmask _ hlow).2, Nat.or_zero]
  have hnext : ((word low high + 1) &&& (0x00FF : UInt16)).toNat = (low + 1).toNat := by
    have hmod (address : UInt16) : (address &&& (0x00FF : UInt16)).toNat = address.toNat % 2 ^ 8 :=
      (UInt16.toNat_and _ _).trans (Nat.and_two_pow_sub_one_eq_mod _ 8)
    rw [hmod, UInt16.toNat_add, hword, UInt8.toNat_add, UInt16.toNat_one, UInt8.toNat_one]
    omega
  apply UInt16.toNat_inj.mp
  rw [toNat_word, nextInPage, UInt16.toNat_or, hpage, hnext, mul_or _ (low + 1).toNat_lt]

/-- Addresses of page zero are followed by such addresses within the page. -/
theorem nextInPage_toUInt16 (low : UInt8) : nextInPage low.toUInt16 = (low + 1).toUInt16 := by
  have hzero (b : UInt8) : b.toUInt16 = word b 0 := by simp [word]
  rw [hzero low, nextInPage_word, hzero (low + 1)]

/-! ## Operands -/

namespace Transaction

variable {M α β : Type} [Memory M]

/-- The accesses of a transaction that is carried out on a memory. -/
def accesses (transaction : Transaction α) (memory : M) : List Access :=
  (transaction.encounters memory).map (·.access)

theorem accesses_bind (transaction : Transaction α) (f : α → Transaction β) (memory : M) :
    (transaction >>= f).accesses memory =
      transaction.accesses memory ++
        (f (transaction.run memory).1).accesses (transaction.run memory).2 := by
  unfold accesses
  rw [encounters_bind, List.map_append]

end Transaction

open Transaction

variable {M σ : Type} [Memory M] {instruction : Instruction} (r : Registers) (memory : M)

/-- On the way to an operand in memory there are its operand bytes and its pointer, whatever the
byte is that is found there. -/
theorem accesses_locate {mode : AddressingMode} (h : mode.inMemory = true) (value : UInt8) :
    ∃ bytes : Bytes, bytes.value = value ∧
      (locate r mode).accesses memory =
        mode.operandReads r.pc bytes ++ mode.pointerReads r bytes ∧
      mode.effective? r bytes = some ((locate r mode).run memory).1.address := by
  have hsecond : r.pc + 1 + 1 = r.pc + 2 := UInt16.add_assoc r.pc 1 1
  cases mode with
  | implied | accumulator | immediate | relative => cases h
  | zeroPage | zeroPageX | zeroPageY => exact ⟨⟨_, 0, 0, 0, value⟩, rfl, rfl, rfl⟩
  | absolute | absoluteX | absoluteY =>
    refine ⟨⟨_, _, 0, 0, value⟩, rfl, ?_, rfl⟩
    rw [AddressingMode.operandReads, ← hsecond]
    rfl
  | indirect =>
    -- the pointer is read from what the reads of its own address have left
    let low := Memory.read memory (r.pc + 1)
    let high := Memory.read low.2 (r.pc + 1 + 1)
    refine ⟨⟨low.1, high.1, _, _, value⟩, rfl, ?_, rfl⟩
    rw [AddressingMode.operandReads, ← hsecond, AddressingMode.pointerReads, ← nextInPage_word]
    rfl
  | indirectX | indirectY =>
    let operand := Memory.read memory (r.pc + 1)
    refine ⟨⟨operand.1, 0, _, _, value⟩, rfl, ?_, rfl⟩
    rw [AddressingMode.pointerReads, ← nextInPage_toUInt16]
    rfl

theorem loadOperand_of_inMemory {mode : AddressingMode} (h : mode.inMemory = true) :
    loadOperand mode r =
      locate r mode >>= fun location =>
        .read location.address fun value => .done (value, location.crossed) := by
  cases mode <;> first | rfl | cases h

theorem modifyOperand_of_inMemory {mode : AddressingMode} (h : mode.inMemory = true)
    (apply : UInt8 → Flags → UInt8 × Flags) :
    modifyOperand mode apply r =
      locate r mode >>= fun location =>
        .read location.address fun value =>
          .write location.address (apply value r.flags).1
            (.done { r with flags := (apply value r.flags).2 }) := by
  cases mode <;> first | rfl | cases h

/-! ## Instructions -/

section Classes

/-- The byte at the effective address. -/
def located (mode : AddressingMode) : UInt8 :=
  let (location, memory) := (locate r mode).run memory
  (Memory.read memory location.address).1

/-- The address to which the mode of an instruction leads. -/
def Instruction.location (instruction : Instruction) : UInt16 :=
  ((locate r instruction.mode).run memory).1.address

/-- An operand in memory is read when it has been found. -/
theorem accesses_load_located {apply : UInt8 → Registers → Registers}
    (heffect : instruction.operation.effect = .load apply)
    (hmemory : instruction.mode.inMemory = true) :
    (executeInstruction instruction r).accesses memory =
      (locate r instruction.mode).accesses memory ++
        [.read (instruction.location r memory) (located r memory instruction.mode)] := by
  simp only [executeInstruction, heffect]
  rw [loadOperand_of_inMemory r hmemory, accesses_bind, accesses_bind]
  exact List.append_nil _

theorem accesses_store_located {value : Registers → UInt8}
    (heffect : instruction.operation.effect = .store value) :
    (executeInstruction instruction r).accesses memory =
      (locate r instruction.mode).accesses memory ++
        [.write (instruction.location r memory) (value r)] := by
  simp only [executeInstruction, heffect]
  rw [accesses_bind]
  rfl

theorem accesses_modify_located {apply : UInt8 → Flags → UInt8 × Flags}
    (heffect : instruction.operation.effect = .modify apply)
    (hmemory : instruction.mode.inMemory = true) :
    let value := located r memory instruction.mode
    (executeInstruction instruction r).accesses memory =
      (locate r instruction.mode).accesses memory ++
        [.read (instruction.location r memory) value,
          .write (instruction.location r memory) (apply value r.flags).1] := by
  simp only [executeInstruction, heffect]
  rw [modifyOperand_of_inMemory r hmemory, accesses_bind, accesses_bind]
  exact List.append_nil _

/-- A jump has nothing more to do than to find its target. -/
theorem accesses_jump_located (heffect : instruction.operation.effect = .jump) :
    (executeInstruction instruction r).accesses memory =
      (locate r instruction.mode).accesses memory := by
  simp only [executeInstruction, heffect]
  rw [accesses_bind]
  exact List.append_nil _

/-- An operand is read once, as an operand byte or at the effective address. -/
theorem accesses_load {apply : UInt8 → Registers → Registers}
    (heffect : instruction.operation.effect = .load apply)
    (hmode : instruction.mode = .immediate ∨ instruction.mode.inMemory = true) :
    ∃ bytes, (executeInstruction instruction r).accesses memory =
      instruction.mode.operandReads r.pc bytes ++ instruction.mode.pointerReads r bytes ++
        (instruction.mode.effective? r bytes).toList.map (.read · bytes.value) := by
  rcases hmode with himmediate | hmemory
  · simp only [executeInstruction, heffect, himmediate]
    exact ⟨⟨_, 0, 0, 0, 0⟩, rfl⟩
  · obtain ⟨bytes, hvalue, haccesses, heffective⟩ :=
      accesses_locate r memory hmemory (located r memory instruction.mode)
    refine ⟨bytes, ?_⟩
    rw [accesses_load_located r memory heffect hmemory, haccesses, heffective, hvalue]
    rfl

/-- An operand that is replaced is not read. -/
theorem accesses_store {value : Registers → UInt8}
    (heffect : instruction.operation.effect = .store value)
    (hmode : instruction.mode.inMemory = true) :
    ∃ bytes, (executeInstruction instruction r).accesses memory =
      instruction.mode.operandReads r.pc bytes ++ instruction.mode.pointerReads r bytes ++
        (instruction.mode.effective? r bytes).toList.map (.write · (value r)) := by
  obtain ⟨bytes, -, haccesses, heffective⟩ := accesses_locate r memory hmode 0
  refine ⟨bytes, ?_⟩
  rw [accesses_store_located r memory heffect, haccesses, heffective]
  rfl

/-- An operand that is changed in place is read once and then written once. -/
theorem accesses_modify {apply : UInt8 → Flags → UInt8 × Flags}
    (heffect : instruction.operation.effect = .modify apply)
    (hmode : instruction.mode = .accumulator ∨ instruction.mode.inMemory = true) :
    ∃ bytes, (executeInstruction instruction r).accesses memory =
      instruction.mode.operandReads r.pc bytes ++ instruction.mode.pointerReads r bytes ++
        (instruction.mode.effective? r bytes).toList.flatMap fun address =>
          [.read address bytes.value, .write address (apply bytes.value r.flags).1] := by
  rcases hmode with haccumulator | hmemory
  · simp only [executeInstruction, heffect, haccumulator]
    exact ⟨⟨0, 0, 0, 0, 0⟩, rfl⟩
  · obtain ⟨bytes, hvalue, haccesses, heffective⟩ :=
      accesses_locate r memory hmemory (located r memory instruction.mode)
    refine ⟨bytes, ?_⟩
    rw [accesses_modify_located r memory heffect hmemory, haccesses, heffective, hvalue]
    rfl

/-- A branch reads its distance, whether it is taken or not. -/
theorem accesses_branch {taken : Flags → Bool}
    (heffect : instruction.operation.effect = .branch taken) :
    ∃ offset, (executeInstruction instruction r).accesses memory =
      [.read (r.pc + 1) offset] := by
  simp only [executeInstruction, heffect]
  refine ⟨(Memory.read memory (r.pc + 1)).1, ?_⟩
  rw [accesses_bind]
  cases taken r.flags <;> rfl

/-- A jump reads its target and nothing else. -/
theorem accesses_jump (heffect : instruction.operation.effect = .jump)
    (hmode : instruction.mode.inMemory = true) :
    ∃ bytes, (executeInstruction instruction r).accesses memory =
      instruction.mode.operandReads r.pc bytes ++ instruction.mode.pointerReads r bytes := by
  obtain ⟨bytes, -, haccesses, -⟩ := accesses_locate r memory hmode 0
  exact ⟨bytes, (accesses_jump_located r memory heffect).trans haccesses⟩

end Classes

/-- An instruction whose mode goes with its operation makes the accesses of the table. -/
theorem accesses_executeInstruction (hfits : instruction.Fits) :
    ∃ bytes, (executeInstruction instruction r).accesses memory =
      instruction.accesses r bytes := by
  unfold Instruction.Fits at hfits
  unfold Instruction.accesses Instruction.operationAccesses
  have hpc : r.pc + 1 + 1 = r.pc + 2 := UInt16.add_assoc r.pc 1 1
  have hdown : r.sp - 1 - 1 = r.sp - 2 := by grind
  have hup : r.sp + 1 + 1 = r.sp + 2 := UInt8.add_assoc r.sp 1 1
  have hupper : r.sp + 1 + 1 + 1 = r.sp + 3 := by grind
  -- operations that act by their class have the accesses of the class, the others their own
  cases hop : instruction.operation with
  | adc | and | bit | cmp | cpx | cpy | eor | ora | sbc | lda | ldx | ldy =>
    rw [hop] at hfits
    exact accesses_load r memory (congrArg Operation.effect hop) hfits
  | sta | stx | sty =>
    rw [hop] at hfits
    exact accesses_store r memory (congrArg Operation.effect hop) hfits
  | asl | lsr | rol | ror =>
    rw [hop] at hfits
    exact accesses_modify r memory (congrArg Operation.effect hop) hfits
  | inc | dec =>
    rw [hop] at hfits
    exact accesses_modify r memory (congrArg Operation.effect hop) (.inr hfits)
  | bcc | bcs | bne | beq | bpl | bmi | bvc | bvs =>
    rw [hop] at hfits
    obtain ⟨offset, haccesses⟩ := accesses_branch r memory (congrArg Operation.effect hop)
    rw [haccesses, hfits]
    exact ⟨⟨offset, 0, 0, 0, 0⟩, rfl⟩
  | jmp =>
    rw [hop] at hfits
    have hmemory : instruction.mode.inMemory = true := by
      rcases hfits with hmode | hmode <;> rw [hmode] <;> rfl
    obtain ⟨bytes, haccesses⟩ := accesses_jump r memory (congrArg Operation.effect hop) hmemory
    exact ⟨bytes, haccesses.trans (List.append_nil _).symm⟩
  | jsr =>
    rw [hop] at hfits
    simp only [executeInstruction, hop, hfits, AddressingMode.operandReads, ← hpc]
    exact ⟨⟨_, _, 0, 0, 0⟩, rfl⟩
  | brk =>
    rw [hop] at hfits
    simp only [executeInstruction, hop, hfits, ← hdown]
    exact ⟨⟨0, 0, _, _, 0⟩, rfl⟩
  | rts =>
    rw [hop] at hfits
    simp only [executeInstruction, hop, hfits, ← hup]
    exact ⟨⟨0, 0, _, _, 0⟩, rfl⟩
  | rti =>
    rw [hop] at hfits
    simp only [executeInstruction, hop, hfits, ← hup, ← hupper]
    exact ⟨⟨0, 0, _, _, _⟩, rfl⟩
  | pla | plp =>
    rw [hop] at hfits
    simp only [executeInstruction, hop, hfits]
    exact ⟨⟨0, 0, 0, 0, _⟩, rfl⟩
  | pha | php | inx | dex | iny | dey | tax | tay | txa | tya | tsx | txs | clc | sec | cld | sed
  | cli | sei | clv | nop | undocumented =>
    rw [hop] at hfits
    simp only [executeInstruction, hop, hfits]
    exact ⟨⟨0, 0, 0, 0, 0⟩, rfl⟩

/-! ## Steps -/

/-- The bytes that were read are those that the memory had to give, each after the accesses before
it. -/
def Answered (memory : M) : List Access → Prop
  | [] => True
  | .read address value :: rest =>
    value = (Memory.read memory address).1 ∧ Answered (Memory.read memory address).2 rest
  | .write address value :: rest => Answered (Memory.write memory address value) rest

theorem answered_accesses {α : Type} (transaction : Transaction α) (memory : M) :
    Answered memory (transaction.accesses memory) := by
  induction transaction generalizing memory with
  | done result => trivial
  | read address next ih => exact ⟨rfl, ih _ _⟩
  | write address value next ih => exact ih _

/-- The same processor with a memory that keeps its accesses. -/
def traced (cpu : Cpu M σ) : Cpu (TracedMemory M) σ where
  registers := cpu.registers
  memory := ⟨cpu.memory, []⟩
  hook := cpu.hook
  memo := cpu.memo
  bypass := cpu.bypass
  profiling := cpu.profiling
  counts := cpu.counts

theorem simulation_traced :
    Memory.Simulation fun (traced : TracedMemory M) memory => traced.memory = memory where
  read_value h _ := h ▸ rfl
  read h _ := h ▸ rfl
  write h _ _ := h ▸ rfl
  report h _ := h ▸ rfl

variable (cpu : Cpu M σ)

/-- The same becomes of a step whether or not its accesses are kept. -/
theorem step_traced :
    cpu.traced.step.1 = cpu.step.1 ∧ cpu.traced.step.2.registers = cpu.step.2.registers ∧
      cpu.traced.step.2.memory.memory = cpu.step.2.memory := by
  have halike : Alike (fun traced memory => traced.memory = memory) cpu.traced cpu :=
    ⟨rfl, rfl, rfl, rfl, rfl⟩
  obtain ⟨houtcome, halike⟩ := alike_step simulation_traced halike
  exact ⟨houtcome, halike.registers, halike.memory⟩

/-- A step that is carried out keeps the accesses of its transaction, and a refused one none. -/
theorem takeAccesses_step_traced :
    cpu.traced.step.2.memory.takeAccesses.1 =
      match cpu.step.1 with
      | .ran _ => cpu.registers.step.accesses cpu.memory
      | .refused _ => [] := by
  have hrun := run_traced cpu.registers.step cpu.memory []
  rw [← (step_traced cpu).1]
  obtain ⟨memo, hstep | hstep⟩ := cpu.traced.step_cases
  · -- the report of an opcode, if there is one, is no access
    have hmemory : (Cpu.memoryAfter { cpu.traced with bypass := false, memo }).accesses =
        (cpu.registers.step.accesses cpu.memory).reverse := by
      simp only [memoryAfter, traced, hrun]
      split
      · split <;> exact List.append_nil _
      · exact List.append_nil _
    rw [hstep, advance_eq]
    simp only [TracedMemory.takeAccesses, hmemory, List.reverse_reverse]
  · rw [hstep]
    rfl

/-- A step that is carried out makes the accesses of an interrupt entry, if one is due, or else
reads an opcode and makes the accesses of its instruction, and no others; the bytes in them are
those that the memory had to give. A refused step makes no accesses. -/
theorem accesses_step :
    let accesses := cpu.traced.step.2.memory.takeAccesses.1
    (cpu.traced.step.1 = cpu.step.1 ∧ cpu.traced.step.2.registers = cpu.step.2.registers ∧
      cpu.traced.step.2.memory.memory = cpu.step.2.memory) ∧
    match cpu.step.1 with
    | .refused _ => accesses = []
    | .ran _ =>
      Answered cpu.memory accesses ∧
      match cpu.registers.due? with
      | some interrupt =>
        ∃ low high, accesses = cpu.registers.entryAccesses interrupt low high
      | none =>
        ∃ opcode bytes, accesses =
          .read cpu.registers.pc opcode ::
            (Instruction.decode opcode).accesses cpu.registers bytes := by
  intro accesses
  have haccesses : accesses = _ := takeAccesses_step_traced cpu
  refine ⟨step_traced cpu, ?_⟩
  cases houtcome : cpu.step.1 with
  | refused pc => rw [haccesses, houtcome]
  | ran cycles =>
    rw [haccesses, houtcome]
    refine ⟨answered_accesses _ _, ?_⟩
    cases hdue : cpu.registers.due? with
    | some interrupt =>
      obtain ⟨low, high, -, hentry⟩ := run_step_of_due hdue cpu.memory
      exact ⟨low, high, hentry⟩
    | none =>
      let opcode := (Memory.read cpu.memory cpu.registers.pc).1
      obtain ⟨bytes, hbytes⟩ :=
        accesses_executeInstruction cpu.registers cpu.fetched (fits_decode opcode)
      refine ⟨opcode, bytes, ?_⟩
      rw [step_of_not_due hdue, ← hbytes]
      refine congrArg (List.cons _) ((accesses_bind _ _ cpu.fetched).trans ?_)
      exact List.append_nil _

end AppleOne.Cpu
