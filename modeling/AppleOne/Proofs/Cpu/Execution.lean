import AppleOne.Proofs.Cpu.Encounters

/-!
# The execution of an instruction

A step that enters no interrupt handler reads an opcode and carries out its instruction. What
comes of that is said here once for every class of operations: the registers afterwards, and what
was written on the way.

## Main definitions

* `Transaction.writes`, `Cpu.written`: what a transaction and a step write.
* `Cpu.current`, `Cpu.fetched`: the instruction at the program counter, and the memory that it
  finds.
* `Instruction.outcome`: the registers after an instruction, and what it wrote.
* `Cpu.Performs`: a step that carries out an operation.

## Main results

* `outcome_load`, `outcome_store` and so on: the outcome for every class of operations.
* `outcome_current`: a step that enters no handler has the outcome of its instruction.
-/

namespace AppleOne.Cpu

/-- What an encounter writes, and where. -/
def Encounter.written? {M : Type} (encounter : Encounter M) : Option (UInt16 × UInt8) :=
  match encounter.access with
  | .read _ _ => none
  | .write address value => some (address, value)

namespace Transaction

variable {M α β : Type} [Memory M]

theorem run_bind (transaction : Transaction α) (f : α → Transaction β) (memory : M) :
    (transaction >>= f).run memory =
      (f (transaction.run memory).1).run (transaction.run memory).2 := by
  induction transaction generalizing memory with
  | done result => rfl
  | read address next ih => exact ih _ _
  | write address value next ih => exact ih _

theorem encounters_bind (transaction : Transaction α) (f : α → Transaction β) (memory : M) :
    (transaction >>= f).encounters memory =
      transaction.encounters memory ++
        (f (transaction.run memory).1).encounters (transaction.run memory).2 := by
  induction transaction generalizing memory with
  | done result => rfl
  | read address next ih => exact congrArg (List.cons _) (ih _ _)
  | write address value next ih => exact congrArg (List.cons _) (ih _)

/-- What a transaction writes, and where, in order. -/
def writes (transaction : Transaction α) (memory : M) : List (UInt16 × UInt8) :=
  (transaction.encounters memory).filterMap Encounter.written?

theorem writes_bind (transaction : Transaction α) (f : α → Transaction β) (memory : M) :
    (transaction >>= f).writes memory =
      transaction.writes memory ++
        (f (transaction.run memory).1).writes (transaction.run memory).2 := by
  unfold writes
  rw [encounters_bind, List.filterMap_append]

/-- What may write nowhere writes nothing. -/
theorem writes_eq_nil {transaction : Transaction α}
    (h : transaction.WritesWithin fun _ => False) (memory : M) :
    transaction.writes memory = [] := by
  induction transaction generalizing memory with
  | done result => rfl
  | read address next ih => exact ih _ (h _) _
  | write address value next ih => exact h.1.elim

end Transaction

open Transaction

/-! ## Classes of operations -/

variable {M σ : Type} [Memory M]

/-- The registers after an instruction, and what it wrote. -/
def Instruction.outcome (instruction : Instruction) (r : Registers) (memory : M) :
    Registers × List (UInt16 × UInt8) :=
  (((executeInstruction instruction r).run memory).1,
    (executeInstruction instruction r).writes memory)

section Classes

variable {instruction : Instruction} (r : Registers) (memory : M)

/-- An operand is read without writing anything. -/
theorem outcome_load {apply : UInt8 → Registers → Registers}
    (h : instruction.operation.effect = .load apply) :
    instruction.outcome r memory =
      let operand := ((loadOperand instruction.mode r).run memory).1
      ((apply operand.1 r).finish (instruction.cycles + operand.2.toNat) instruction.size, []) := by
  have hwrites := writes_eq_nil (writesWithin_loadOperand r instruction.mode) memory
  simp only [Instruction.outcome, executeInstruction, h, run_bind, writes_bind, hwrites]
  rfl

theorem outcome_store {value : Registers → UInt8}
    (h : instruction.operation.effect = .store value) :
    instruction.outcome r memory =
      let location := ((locate r instruction.mode).run memory).1
      (r.finish instruction.cycles instruction.size, [(location.address, value r)]) := by
  have hwrites := writes_eq_nil (writesWithin_locate r instruction.mode) memory
  simp only [Instruction.outcome, executeInstruction, h, run_bind, writes_bind, hwrites]
  rfl

theorem outcome_modify_accumulator {apply : UInt8 → Flags → UInt8 × Flags}
    (h : instruction.operation.effect = .modify apply) (hmode : instruction.mode = .accumulator) :
    instruction.outcome r memory =
      let (result, flags) := apply r.a r.flags
      ({ r with a := result, flags }.finish instruction.cycles instruction.size, []) := by
  simp only [Instruction.outcome, executeInstruction, h, hmode]
  rfl

theorem outcome_modify {apply : UInt8 → Flags → UInt8 × Flags}
    (h : instruction.operation.effect = .modify apply) (hmode : instruction.mode ≠ .accumulator) :
    instruction.outcome r memory =
      let location := ((locate r instruction.mode).run memory).1
      let (result, flags) := apply ((loadOperand instruction.mode r).run memory).1.1 r.flags
      ({ r with flags }.finish instruction.cycles instruction.size,
        [(location.address, result)]) := by
  have hwrites := writes_eq_nil (writesWithin_locate r instruction.mode) memory
  simp only [Instruction.outcome, executeInstruction, h, modifyOperand, loadOperand]
  simp only [run_bind, writes_bind, hwrites]
  rfl

theorem outcome_internal {apply : Registers → Registers}
    (h : instruction.operation.effect = .internal apply) :
    instruction.outcome r memory =
      ((apply r).finish instruction.cycles instruction.size, []) := by
  simp only [Instruction.outcome, executeInstruction, h]
  rfl

theorem outcome_branch {taken : Flags → Bool}
    (h : instruction.operation.effect = .branch taken) :
    instruction.outcome r memory =
      let target := branchTarget r.pc (Memory.read memory (r.pc + 1)).1
      (if taken r.flags then
          { r.spend (instruction.cycles + branchPenalty r.pc target) with pc := target }
        else r.finish instruction.cycles instruction.size, []) := by
  simp only [Instruction.outcome, executeInstruction, h]
  cases htaken : taken r.flags with
  | true => rfl
  | false => rfl

theorem outcome_push {value : Registers → UInt8}
    (h : instruction.operation.effect = .push value) :
    instruction.outcome r memory =
      ({ r with sp := r.sp - 1 }.finish instruction.cycles instruction.size,
        [(stackAddress r.sp, value r)]) := by
  simp only [Instruction.outcome, executeInstruction, h]
  rfl

theorem outcome_pull {apply : UInt8 → Registers → Registers}
    (h : instruction.operation.effect = .pull apply) :
    instruction.outcome r memory =
      let value := (Memory.read memory (stackAddress (r.sp + 1))).1
      ((apply value { r with sp := r.sp + 1 }).finish instruction.cycles instruction.size, []) := by
  simp only [Instruction.outcome, executeInstruction, h]
  rfl

theorem outcome_jump (h : instruction.operation.effect = .jump) :
    instruction.outcome r memory =
      let location := ((locate r instruction.mode).run memory).1
      ({ r.spend instruction.cycles with pc := location.address }, []) := by
  have hwrites := writes_eq_nil (writesWithin_locate r instruction.mode) memory
  simp only [Instruction.outcome, executeInstruction, h, run_bind, writes_bind, hwrites]
  rfl

theorem outcome_call (h : instruction.operation.effect = .call) :
    ∃ target, instruction.outcome r memory =
      ({ r.spend instruction.cycles with pc := target, sp := r.sp - 1 - 1 },
        [(stackAddress r.sp, ((r.pc + 2) >>> 8).toUInt8),
          (stackAddress (r.sp - 1), (r.pc + 2).toUInt8)]) := by
  simp only [Instruction.outcome, executeInstruction, h]
  exact ⟨_, rfl⟩

theorem outcome_returnFromCall (h : instruction.operation.effect = .returnFromCall) :
    ∃ pc, instruction.outcome r memory =
      ({ r.spend instruction.cycles with pc, sp := r.sp + 1 + 1 }, []) := by
  simp only [Instruction.outcome, executeInstruction, h]
  exact ⟨_, rfl⟩

theorem outcome_softwareInterrupt (h : instruction.operation.effect = .softwareInterrupt) :
    ∃ pc, instruction.outcome r memory =
      ({ r.spend instruction.cycles with
          pc, sp := r.sp - 1 - 1 - 1, flags := { r.flags with interruptDisable := true } },
        [(stackAddress r.sp, ((r.pc + 2) >>> 8).toUInt8),
          (stackAddress (r.sp - 1), (r.pc + 2).toUInt8),
          (stackAddress (r.sp - 1 - 1), r.pushedStatus)]) := by
  simp only [Instruction.outcome, executeInstruction, h]
  exact ⟨_, rfl⟩

theorem outcome_returnFromInterrupt (h : instruction.operation.effect = .returnFromInterrupt) :
    ∃ pc status, instruction.outcome r memory =
      ({ (r.withStatus status).spend instruction.cycles with pc, sp := r.sp + 1 + 1 + 1 }, []) := by
  simp only [Instruction.outcome, executeInstruction, h]
  exact ⟨_, _, rfl⟩

end Classes

/-! ## Steps -/

section Step

variable (cpu : Cpu M σ)

/-- The instruction at the program counter. -/
def current : Instruction := .decode (Memory.read cpu.memory cpu.registers.pc).1

/-- The memory when the opcode has been read. -/
def fetched : M := (Memory.read cpu.memory cpu.registers.pc).2

/-- What a step that is carried out writes, and where, in order. -/
def written : List (UInt16 × UInt8) := cpu.encounters.filterMap Encounter.written?

/-- The next step is an instruction with this operation. -/
structure Performs (operation : Operation) : Prop where
  due? : cpu.registers.due? = none
  ran : cpu.step.1.wasRefused = false
  operation : cpu.current.operation = operation

variable {cpu}

/-- A step that was not refused is an advance, whatever the hook has noted. -/
theorem exists_step_eq_advance (hran : cpu.step.1.wasRefused = false) :
    ∃ memo, cpu.step = { cpu with bypass := false, memo }.advance := by
  obtain ⟨memo, hadvance | hrefused⟩ := cpu.step_cases
  · exact ⟨memo, hadvance⟩
  · rw [hrefused] at hran
    cases hran

/-- A step that enters no handler has the outcome of the instruction at the program counter. -/
theorem outcome_current (hdue : cpu.registers.due? = none)
    (hran : cpu.step.1.wasRefused = false) :
    cpu.current.outcome cpu.registers cpu.fetched = (cpu.step.2.registers, cpu.written) := by
  obtain ⟨memo, hstep⟩ := exists_step_eq_advance hran
  refine Prod.ext ?_ ?_
  · rw [hstep, advance_eq]
    show _ = (cpu.registers.step.run cpu.memory).1.1
    rw [step_of_not_due hdue]
    simp only [run, run_bind]
    rfl
  · show (executeInstruction cpu.current cpu.registers).writes cpu.fetched = _
    have hwrites : cpu.written = cpu.registers.step.writes cpu.memory := rfl
    rw [hwrites, step_of_not_due hdue]
    show _ = Transaction.writes (_ >>= _) cpu.fetched
    rw [writes_bind]
    exact (List.append_nil _).symm

end Step

end AppleOne.Cpu
