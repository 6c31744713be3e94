import AppleOne.Proofs.Cpu.Execution
import AppleOne.Proofs.Cpu.Passage

/-!
# How long an instruction takes, and where the next one is

An instruction takes its base cycles. One more is for an operand that is read where adding the
index carries out of the low byte of the address, one for a branch that is taken, and another if
the branch leads to another page than that of the next instruction. Instructions follow one
another in memory, around its end, unless the operation is there to go elsewhere.

The processor finds all this out on words of 16 bits, by masks and by carrying signs. Here it is
said in numbers.

## Main definitions

* `Operation.readers`, `Operation.movers`, `Operation.takes`: the operations that read an
  operand, those that go elsewhere, and the branches with their conditions.
* `Instruction.carries`: whether indexing carries out of the low byte.
* `Registers.branchesTo`: where a branch leads.
* `Instruction.cyclesTaken`: the cycles of an instruction.

## Main results

* `differentPages_word`, `toNat_branchTarget`: indexing and branching in numbers.
* `cycles_outcome`, `cyclesTaken_decode`: the cycles of an instruction.
* `pc_outcome`, `pc_outcome_of_branch`: the program counter after it.
* `timing_step`: the same of a step that enters no handler and is not refused.
-/

namespace AppleOne.Cpu

/-! ## Operations -/

namespace Operation

/-- The operations that read an operand and do not write it. -/
def readers : List Operation :=
  [.adc, .and, .bit, .cmp, .cpx, .cpy, .eor, .ora, .sbc, .lda, .ldx, .ldy]

/-- The operations that branch. -/
def branches : List Operation := [.bcc, .bcs, .bne, .beq, .bpl, .bmi, .bvc, .bvs]

/-- The operations after which another instruction than the next one may follow. -/
def movers : List Operation := branches ++ [.jmp, .jsr, .rts, .rti, .brk]

/-- Whether an operation is a branch that is taken. -/
def takes : Operation → Flags → Bool
  | bcc, flags => !flags.carry
  | bcs, flags => flags.carry
  | bne, flags => !flags.zero
  | beq, flags => flags.zero
  | bpl, flags => !flags.negative
  | bmi, flags => flags.negative
  | bvc, flags => !flags.overflow
  | bvs, flags => flags.overflow
  | _, _ => false

end Operation

namespace Effect

/-- Whether an operand is read and not written. -/
def reads : Effect → Bool
  | load _ => true
  | _ => false

/-- Whether there is a branch, and it is taken. -/
def takes : Effect → Flags → Bool
  | branch taken, flags => taken flags
  | _, _ => false

/-- Whether another instruction than the next one may follow. -/
def moves : Effect → Bool
  | branch _ | jump | call | returnFromCall | softwareInterrupt | returnFromInterrupt => true
  | _ => false

/-- What an operation does to the registers leaves the program counter. -/
def Stays : Effect → Prop
  | load apply | pull apply => ∀ value r, (apply value r).pc = r.pc
  | internal apply => ∀ r, (apply r).pc = r.pc
  | _ => True

end Effect

section Classes

variable (operation : Operation)

theorem reads_effect : operation.effect.reads = decide (operation ∈ Operation.readers) := by
  cases operation <;> rfl

theorem takes_effect (flags : Flags) : operation.effect.takes flags = operation.takes flags := by
  cases operation <;> rfl

theorem moves_effect : operation.effect.moves = decide (operation ∈ Operation.movers) := by
  cases operation <;> rfl

theorem stays_effect : operation.effect.Stays := by
  cases operation with
  | adc | sbc | and | ora | eor | cmp | cpx | cpy | bit | lda | ldx | ldy | pla | plp =>
    exact fun _ _ => rfl
  | inx | dex | iny | dey | tax | tay | txa | tya | tsx | txs | clc | sec | cld | sed | cli | sei
  | clv | nop | undocumented => exact fun _ => rfl
  | _ => trivial

end Classes

/-! ## Pages and distances -/

theorem toNat_word (low high : UInt8) : (word low high).toNat = high.toNat * 256 + low.toNat := by
  have hhigh := high.toNat_lt
  have hshift : (high.toUInt16 <<< 8).toNat = 2 ^ 8 * high.toNat := by
    rw [UInt16.toNat_shiftLeft, UInt8.toNat_toUInt16, Nat.shiftLeft_eq]
    show high.toNat * 2 ^ 8 % 2 ^ 16 = _
    omega
  rw [word, UInt16.toNat_or, hshift, UInt8.toNat_toUInt16,
    ← Nat.two_pow_add_eq_or_of_lt low.toNat_lt]
  omega

/-- Pages are counted by the high byte. -/
theorem differentPages_eq (first second : UInt16) :
    differentPages first second = decide (first.toNat / 256 ≠ second.toNat / 256) := by
  have hpage (address : UInt16) : (address >>> 8).toNat = address.toNat / 256 := by
    rw [UInt16.toNat_shiftRight, Nat.shiftRight_eq_div_pow]
    rfl
  rw [differentPages, Bool.eq_iff_iff, bne_iff_ne, decide_eq_true_iff, ne_eq, ← UInt16.toNat_inj,
    hpage, hpage]

/-- Indexing leads to another page if it carries out of the low byte, also where it leads around
the end of memory. -/
theorem differentPages_word (low high index : UInt8) :
    differentPages (word low high) (word low high + index.toUInt16) =
      decide (256 ≤ low.toNat + index.toNat) := by
  have hlow := low.toNat_lt
  have hhigh := high.toNat_lt
  have hindex := index.toNat_lt
  rw [differentPages_eq, UInt16.toNat_add, toNat_word, UInt8.toNat_toUInt16, decide_eq_decide]
  omega

/-- A signed byte is widened to the word that stands for the same number. -/
theorem toNat_signExtend (offset : UInt8) :
    ((signExtend offset).toNat : Int) = offset.toInt8.toInt % 65536 := by
  have hlt := offset.toNat_lt
  have hsigned : offset.toInt8.toInt =
      if 2 * offset.toNat < 256 then (offset.toNat : Int) else offset.toNat - 256 :=
    BitVec.toInt_eq_toNat_cond offset.toBitVec
  unfold signExtend
  rw [hsigned]
  split
  · next hsmall =>
    have hsmall : offset.toNat < 128 := hsmall
    rw [UInt8.toNat_toUInt16, if_pos (by omega)]
    omega
  · next hlarge =>
    have hlarge : ¬ offset.toNat < 128 := hlarge
    have hhigh : (offset.toUInt16 ||| 0xFF00).toNat = 2 ^ 8 * 255 + offset.toNat := by
      rw [UInt16.toNat_or, Nat.or_comm, UInt8.toNat_toUInt16]
      exact (Nat.two_pow_add_eq_or_of_lt offset.toNat_lt 255).symm
    rw [hhigh, if_neg (by omega)]
    omega

/-- A branch counts its distance from the next instruction, around the ends of memory. -/
theorem toNat_branchTarget (pc : UInt16) (offset : UInt8) :
    ((branchTarget pc offset).toNat : Int) = (pc.toNat + 2 + offset.toInt8.toInt) % 65536 := by
  have hextended := toNat_signExtend offset
  have htwo : (2 : UInt16).toNat = 2 := rfl
  rw [branchTarget, UInt16.toNat_add, UInt16.toNat_add, htwo]
  omega

/-! ## Instructions -/

section Outcome

variable {M : Type} [Memory M] (instruction : Instruction) (r : Registers) (memory : M)

/-- Whether adding the index carries out of the low byte of the base address. Only three modes
index a full address. -/
def Instruction.carries : Bool :=
  let (operand, rest) := Memory.read memory (r.pc + 1)
  match instruction.mode with
  | .absoluteX => 256 ≤ operand.toNat + r.x.toNat
  | .absoluteY => 256 ≤ operand.toNat + r.y.toNat
  | .indirectY => 256 ≤ (Memory.read rest operand.toUInt16).1.toNat + r.y.toNat
  | _ => false

/-- Where a branch leads, as a number. -/
def Registers.branchesTo : Int :=
  (r.pc.toNat + 2 + (Memory.read memory (r.pc + 1)).1.toInt8.toInt) % 65536

/-- The cycles that an instruction takes. -/
def Instruction.cyclesTaken : Nat :=
  instruction.cycles +
    (if instruction.operation ∈ Operation.readers ∧ instruction.carries r memory then 1 else 0) +
    (if instruction.operation.takes r.flags then 1 else 0) +
    (if instruction.operation.takes r.flags ∧
        r.branchesTo memory / 256 ≠ (r.pc.toNat + 2) % 65536 / 256 then 1 else 0)

theorem crossed_loadOperand :
    ((loadOperand instruction.mode r).run memory).1.2 = instruction.carries r memory := by
  unfold Instruction.carries
  cases instruction.mode with
  | absoluteX | absoluteY | indirectY => exact differentPages_word _ _ _
  | _ => rfl

/-- A branch pays more if it leads to another page than that of the next instruction. -/
theorem differentPages_branchTarget :
    differentPages (r.pc + 2) (branchTarget r.pc (Memory.read memory (r.pc + 1)).1) =
      decide (r.branchesTo memory / 256 ≠ (r.pc.toNat + 2) % 65536 / 256) := by
  have hnext : (r.pc + 2).toNat = (r.pc.toNat + 2) % 65536 := UInt16.toNat_add r.pc 2
  rw [differentPages_eq, Registers.branchesTo, ← toNat_branchTarget, hnext, decide_eq_decide]
  omega

variable {instruction} {effect : Effect}

theorem cyclesTaken_of_reads (heffect : instruction.operation.effect = effect)
    (hreads : effect.reads = true) :
    instruction.cyclesTaken r memory =
      instruction.cycles + (instruction.carries r memory).toNat := by
  rw [← heffect] at hreads
  have hreader : instruction.operation ∈ Operation.readers := by
    rw [reads_effect] at hreads
    exact of_decide_eq_true hreads
  have htakes : instruction.operation.takes r.flags = false := by
    rw [← takes_effect]
    cases heffect : instruction.operation.effect with
    | load apply => rfl
    | _ => simp [heffect, Effect.reads] at hreads
  simp only [Instruction.cyclesTaken, hreader, htakes, true_and, Bool.false_eq_true, false_and,
    if_false, Nat.add_zero]
  cases instruction.carries r memory <;> rfl

theorem cyclesTaken_of_not_reads (heffect : instruction.operation.effect = effect)
    (hreads : effect.reads = false) :
    instruction.cyclesTaken r memory =
      instruction.cycles +
        if effect.takes r.flags then
          branchPenalty r.pc (branchTarget r.pc (Memory.read memory (r.pc + 1)).1)
        else 0 := by
  rw [← heffect] at hreads
  have hreader : instruction.operation ∉ Operation.readers := by
    rw [reads_effect] at hreads
    exact of_decide_eq_false hreads
  rw [← heffect, takes_effect]
  simp only [Instruction.cyclesTaken, hreader, false_and, if_false, Nat.add_zero, branchPenalty,
    differentPages_branchTarget]
  cases instruction.operation.takes r.flags with
  | false => simp
  | true =>
    by_cases hpage : r.branchesTo memory / 256 ≠ (r.pc.toNat + 2) % 65536 / 256
    · simp [hpage]
    · simp [hpage]

/-- What neither reads an operand nor branches takes its base cycles. -/
theorem cyclesTaken_of_plain (heffect : instruction.operation.effect = effect)
    (hreads : effect.reads = false) (htakes : effect.takes r.flags = false) :
    instruction.cyclesTaken r memory = instruction.cycles := by
  rw [cyclesTaken_of_not_reads r memory heffect hreads, htakes]
  rfl

theorem cycles_outcome :
    (instruction.outcome r memory).1.cycles =
      r.cycles + (instruction.cyclesTaken r memory).toUInt64 := by
  have htimeless := timeless_effect instruction.operation
  -- what is applied to the registers counts no cycles, so the class decides
  cases heffect : instruction.operation.effect with
  | load apply =>
    rw [heffect] at htimeless
    rw [outcome_load r memory heffect, cyclesTaken_of_reads r memory heffect rfl,
      ← crossed_loadOperand]
    exact ((htimeless _ r).finish _ _).cycles
  | branch taken =>
    rw [outcome_branch r memory heffect, cyclesTaken_of_not_reads r memory heffect rfl,
      Effect.takes]
    cases taken r.flags with
    | true => rfl
    | false => rfl
  | pull apply =>
    rw [heffect] at htimeless
    rw [outcome_pull r memory heffect, cyclesTaken_of_plain r memory heffect rfl rfl]
    exact ((htimeless _ { r with sp := r.sp + 1 }).finish _ _).cycles
  | internal apply =>
    rw [heffect] at htimeless
    rw [outcome_internal r memory heffect, cyclesTaken_of_plain r memory heffect rfl rfl]
    exact ((htimeless r).finish _ _).cycles
  | modify apply =>
    rw [cyclesTaken_of_plain r memory heffect rfl rfl]
    by_cases hmode : instruction.mode = .accumulator
    · rw [outcome_modify_accumulator r memory heffect hmode]
      rfl
    · rw [outcome_modify r memory heffect hmode]
      rfl
  | store value =>
    rw [outcome_store r memory heffect, cyclesTaken_of_plain r memory heffect rfl rfl]
    rfl
  | push value =>
    rw [outcome_push r memory heffect, cyclesTaken_of_plain r memory heffect rfl rfl]
    rfl
  | jump =>
    rw [outcome_jump r memory heffect, cyclesTaken_of_plain r memory heffect rfl rfl]
    rfl
  | call =>
    obtain ⟨target, houtcome⟩ := outcome_call r memory heffect
    rw [houtcome, cyclesTaken_of_plain r memory heffect rfl rfl]
    rfl
  | returnFromCall =>
    obtain ⟨pc, houtcome⟩ := outcome_returnFromCall r memory heffect
    rw [houtcome, cyclesTaken_of_plain r memory heffect rfl rfl]
    rfl
  | softwareInterrupt =>
    obtain ⟨pc, houtcome⟩ := outcome_softwareInterrupt r memory heffect
    rw [houtcome, cyclesTaken_of_plain r memory heffect rfl rfl]
    rfl
  | returnFromInterrupt =>
    obtain ⟨pc, status, houtcome⟩ := outcome_returnFromInterrupt r memory heffect
    rw [houtcome, cyclesTaken_of_plain r memory heffect rfl rfl]
    rfl

/-- Instructions follow one another unless the operation is there to go elsewhere. -/
theorem pc_outcome (h : instruction.operation ∉ Operation.movers) :
    (instruction.outcome r memory).1.pc = r.pc + instruction.size.toUInt16 := by
  have hstays := stays_effect instruction.operation
  have hmoves : instruction.operation.effect.moves = false := by
    rw [moves_effect]
    exact decide_eq_false h
  -- the classes that move on by the size of the instruction, and then those that go elsewhere
  cases heffect : instruction.operation.effect with
  | load apply =>
    rw [heffect] at hstays
    rw [outcome_load r memory heffect]
    exact congrArg (· + instruction.size.toUInt16) (hstays _ r)
  | store value =>
    rw [outcome_store r memory heffect]
    rfl
  | modify apply =>
    by_cases hmode : instruction.mode = .accumulator
    · rw [outcome_modify_accumulator r memory heffect hmode]
      rfl
    · rw [outcome_modify r memory heffect hmode]
      rfl
  | internal apply =>
    rw [heffect] at hstays
    rw [outcome_internal r memory heffect]
    exact congrArg (· + instruction.size.toUInt16) (hstays r)
  | push value =>
    rw [outcome_push r memory heffect]
    rfl
  | pull apply =>
    rw [heffect] at hstays
    rw [outcome_pull r memory heffect]
    exact congrArg (· + instruction.size.toUInt16) (hstays _ { r with sp := r.sp + 1 })
  | branch _ | jump | call | returnFromCall | softwareInterrupt | returnFromInterrupt =>
    rw [heffect] at hmoves
    cases hmoves

/-- A branch that is taken leads where it says, and any other to the next instruction. -/
theorem pc_outcome_of_branch (h : instruction.operation ∈ Operation.branches) :
    (instruction.outcome r memory).1.pc =
      if instruction.operation.takes r.flags then
        branchTarget r.pc (Memory.read memory (r.pc + 1)).1
      else r.pc + instruction.size.toUInt16 := by
  obtain ⟨taken, heffect⟩ : ∃ taken, instruction.operation.effect = .branch taken := by
    have hall : ∀ operation ∈ Operation.branches, ∃ taken, operation.effect = .branch taken := by
      simp [Operation.branches, Operation.effect]
    exact hall _ h
  rw [← takes_effect, heffect, outcome_branch r memory heffect, Effect.takes]
  cases taken r.flags with
  | true => rfl
  | false => rfl

/-- Only branches are taken. -/
theorem branches_of_takes {operation : Operation} {flags : Flags}
    (h : operation.takes flags = true) : operation ∈ Operation.branches := by
  cases operation <;> first | decide | cases h

/-- No instruction has so many base cycles that it takes more than seven. -/
theorem cyclesTaken_decode (opcode : UInt8) :
    2 ≤ (Instruction.decode opcode).cyclesTaken r memory ∧
      (Instruction.decode opcode).cyclesTaken r memory ≤ 7 := by
  have hmatrix : ∀ row ∈ Instruction.matrix, ∀ instruction ∈ row, 2 ≤ instruction.cycles ∧
      instruction.cycles + (if instruction.operation ∈ Operation.readers then 1 else 0) +
        (if instruction.operation ∈ Operation.branches then 2 else 0) ≤ 7 := by decide
  obtain ⟨hlow, hhigh⟩ := forall_decode hmatrix opcode
  unfold Instruction.cyclesTaken
  generalize Instruction.decode opcode = instruction at hlow hhigh ⊢
  have hcarries : (if instruction.operation ∈ Operation.readers ∧ instruction.carries r memory
      then 1 else 0) ≤ if instruction.operation ∈ Operation.readers then 1 else 0 := by
    by_cases hreader : instruction.operation ∈ Operation.readers
    · rw [if_pos hreader]
      split <;> decide
    · simp [hreader]
  -- a branch that is taken pays twice at most, and nothing else pays for branching
  by_cases htakes : instruction.operation.takes r.flags = true
  · have hpage : (if instruction.operation.takes r.flags ∧
        r.branchesTo memory / 256 ≠ (r.pc.toNat + 2) % 65536 / 256 then 1 else 0) ≤ 1 := by
      split <;> decide
    rw [if_pos (branches_of_takes htakes)] at hhigh
    rw [if_pos htakes]
    omega
  · have hpage : (if instruction.operation.takes r.flags ∧
        r.branchesTo memory / 256 ≠ (r.pc.toNat + 2) % 65536 / 256 then 1 else 0) = 0 :=
      if_neg fun h => htakes h.1
    rw [if_neg htakes, hpage]
    omega

theorem toNat_size (instruction : Instruction) :
    instruction.size.toUInt16.toNat = instruction.size := by
  unfold Instruction.size
  cases instruction.mode <;> rfl

/-- Branches have one byte after the opcode. -/
theorem size_of_branch (opcode : UInt8) :
    (Instruction.decode opcode).operation ∈ Operation.branches →
      (Instruction.decode opcode).size = 2 := by
  have hmatrix : ∀ row ∈ Instruction.matrix, ∀ instruction ∈ row,
      instruction.operation ∈ Operation.branches → instruction.size = 2 := by decide
  exact forall_decode hmatrix opcode

end Outcome

/-! ## Steps -/

section Step

variable {M σ : Type} [Memory M] {cpu : Cpu M σ}

/-- A step that the hook allows, or about which it is not asked, is carried out. -/
theorem step_not_refused
    (hallowed : ∀ ask, cpu.hook = some ask →
      cpu.bypass = true ∨ (ask cpu.registers.pc cpu.memo).1 = true) :
    cpu.step.1.wasRefused = false := by
  cases hbypass : cpu.bypass with
  | true => simp [step_of_bypass hbypass]
  | false =>
    cases hhook : cpu.hook with
    | none => simp [step_of_hook_eq_none hhook]
    | some ask =>
      have hask : (ask cpu.registers.pc cpu.memo).1 = true := by
        simpa [hbypass] using hallowed ask hhook
      simp [step_of_hook hbypass hhook, hask]

/-- What a step that is carried out reports is what it adds to the counter. -/
theorem cycles_step {cycles : Nat} (hran : cpu.step.1.wasRefused = false)
    (h : cpu.step.2.registers.cycles = cpu.registers.cycles + cycles.toUInt64) :
    cpu.step.1 = .ran cycles.toUInt8 := by
  -- the report is the difference of the counters, whether or not the counter has wrapped
  have hreport : (cpu.registers.cycles + cycles.toUInt64 - cpu.registers.cycles).toUInt8 =
      cycles.toUInt8 := by
    rw [UInt64.add_comm, UInt64.add_sub_cancel]
    apply UInt8.toNat_inj.mp
    rw [UInt64.toNat_toUInt8, UInt64.toNat_ofNat', UInt8.toNat_ofNat']
    omega
  obtain ⟨memo, hstep⟩ := exists_step_eq_advance hran
  rw [hstep, advance_eq] at h
  rw [hstep, advance_eq, ← hreport, ← h]

/-- A step that enters no interrupt handler and is not refused takes the base cycles of its
opcode, one more if an operand is read where indexing carries out of the low byte, one for a
branch that is taken, and another if that leaves the page of the next instruction; that is two to
seven cycles. Then the next instruction follows, or the one to which a branch leads. -/
theorem timing_step (hdue : cpu.registers.due? = none)
    (hallowed : ∀ ask, cpu.hook = some ask →
      cpu.bypass = true ∨ (ask cpu.registers.pc cpu.memo).1 = true) :
    (∃ cycles : UInt8, cpu.step.1 = .ran cycles ∧
      cycles.toNat = cpu.current.cyclesTaken cpu.registers cpu.fetched ∧
      2 ≤ cycles.toNat ∧ cycles.toNat ≤ 7) ∧
    (cpu.current.operation ∉ Operation.movers →
      cpu.step.2.registers.pc.toNat = (cpu.registers.pc.toNat + cpu.current.size) % 65536) ∧
    (cpu.current.operation ∈ Operation.branches →
      (cpu.step.2.registers.pc.toNat : Int) =
        if cpu.current.operation.takes cpu.registers.flags then
          cpu.registers.branchesTo cpu.fetched
        else (cpu.registers.pc.toNat + 2) % 65536) := by
  have hran := step_not_refused hallowed
  have hafter : (cpu.current.outcome cpu.registers cpu.fetched).1 = cpu.step.2.registers :=
    congrArg Prod.fst (outcome_current hdue hran)
  rw [← hafter]
  refine ⟨?_, ?_, ?_⟩
  · have hbounds : 2 ≤ cpu.current.cyclesTaken cpu.registers cpu.fetched ∧
        cpu.current.cyclesTaken cpu.registers cpu.fetched ≤ 7 :=
      cyclesTaken_decode _ _ _
    have hbyte : (cpu.current.cyclesTaken cpu.registers cpu.fetched).toUInt8.toNat =
        cpu.current.cyclesTaken cpu.registers cpu.fetched := by
      rw [UInt8.toNat_ofNat', Nat.mod_eq_of_lt (Nat.lt_of_le_of_lt hbounds.2 (by decide))]
    have hcycles : (cpu.current.outcome cpu.registers cpu.fetched).1.cycles = _ :=
      cycles_outcome cpu.registers cpu.fetched
    rw [hafter] at hcycles
    refine ⟨_, cycles_step hran hcycles, ?_⟩
    rw [hbyte]
    exact ⟨rfl, hbounds⟩
  · intro hmovers
    rw [pc_outcome cpu.registers cpu.fetched hmovers, UInt16.toNat_add, toNat_size]
  · intro hbranch
    rw [pc_outcome_of_branch cpu.registers cpu.fetched hbranch]
    split
    · exact toNat_branchTarget _ _
    · have htwo : cpu.current.size = 2 := size_of_branch _ hbranch
      rw [UInt16.toNat_add, toNat_size, htwo]
      rfl

/-- A branch that is taken from the start of memory to the end of it takes four cycles. -/
theorem timing_step_around :
    let cpu : Cpu PlainMemory Unit :=
      { registers := .initial
        memory := (PlainMemory.zeros 0).load 0 [0xD0, 0xFC]
        memo := () }
    (∃ cycles, cpu.step.1 = .ran cycles ∧ cycles.toNat = 4) ∧
      cpu.step.2.registers.pc.toNat = 0xFFFE := by
  intro cpu
  have hcurrent : cpu.current = ⟨.bne, .relative, 2⟩ := by decide +kernel
  have hcycles : cpu.current.cyclesTaken cpu.registers cpu.fetched = 4 := by decide +kernel
  have hleads : cpu.registers.branchesTo cpu.fetched = 0xFFFE := by decide +kernel
  have hdue : cpu.registers.due? = none := rfl
  obtain ⟨⟨cycles, hran, htaken, -⟩, -, hbranch⟩ := timing_step hdue nofun
  rw [hcurrent, hleads] at hbranch
  exact ⟨⟨cycles, hran, htaken.trans hcycles⟩, Int.ofNat.inj (hbranch (by decide))⟩

end Step

end AppleOne.Cpu
