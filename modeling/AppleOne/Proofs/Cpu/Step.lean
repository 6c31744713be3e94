import AppleOne.Cpu.Basic

/-!
# What a step does, and what it leaves alone

A step of the processor is the entry of an interrupt handler if a request is due, and an
instruction otherwise. It works on the registers, the memory and the profile. The hook,
what hooks have noted and whether profiling is on stay as they are, and a bypass is used
up. A step that no hook can refuse is an advance.

## Main definitions

* `Cpu.Interrupt`: the two kinds of interrupts.
* `Cpu.Registers.due?`: the interrupt whose handler the next step enters.

## Main results

* `Cpu.step_of_due`, `Cpu.step_of_not_due`: the steps that are entries, and the others.
* `Cpu.forall_decode`: what holds throughout the instruction set.
* `Cpu.memoryAfter_induction`: what an advance keeps of the memory.
* `Cpu.advance_eq`: what comes of an advance, and the parts of a processor that it changes.
* `Cpu.step_of_hook_eq_none`, `Cpu.singleStep_eq`: steps that are advances.
* `Cpu.step_of_hook`: a step about which the hook is asked.
* `Cpu.step_cases`: a step is an advance, or it is refused.
* `Cpu.exists_switchProfiling`: what a request to profile changes.
-/

namespace AppleOne.Cpu

/-! ## What is due -/

/-- The kinds of interrupts. -/
inductive Interrupt where
  /-- One that can be disabled. -/
  | irq
  /-- One that cannot. -/
  | nmi
  deriving DecidableEq, Repr

/-- Where the handler is found. -/
def Interrupt.vector : Interrupt → UInt16
  | irq => irqVector
  | nmi => nmiVector

namespace Registers

/-- The interrupt whose handler the next step enters. -/
def due? (r : Registers) : Option Interrupt :=
  if r.nmiPending then some .nmi
  else if r.irqPending && !r.flags.interruptDisable then some .irq
  else none

/-- Takes a request out of its latch. -/
def acknowledge (r : Registers) : Interrupt → Registers
  | .irq => { r with irqPending := false }
  | .nmi => { r with nmiPending := false }

@[simp] theorem cycles_acknowledge (r : Registers) (interrupt : Interrupt) :
    (r.acknowledge interrupt).cycles = r.cycles := by
  cases interrupt <;> rfl

end Registers

variable {r : Registers} {interrupt : Interrupt}

/-- The step that enters a handler. -/
theorem step_of_due (h : r.due? = some interrupt) :
    r.step = enterInterrupt interrupt.vector (r.acknowledge interrupt) >>= fun after =>
      pure (after, none) := by
  unfold Registers.due? at h
  unfold Registers.step
  split at h
  · next hnmi =>
    cases h
    rw [if_pos hnmi]
    rfl
  · next hnmi =>
    split at h
    · next hirq =>
      cases h
      rw [if_neg hnmi, if_pos hirq]
      rfl
    · cases h

/-- A step that enters no handler begins with the reading of an opcode. -/
theorem step_of_not_due (h : r.due? = none) :
    r.step = .read r.pc fun opcode =>
      execute opcode r >>= fun after => pure (after, some opcode) := by
  unfold Registers.due? at h
  unfold Registers.step
  split at h
  · cases h
  · next hnmi =>
    split at h
    · cases h
    · next hirq =>
      rw [if_neg hnmi, if_neg hirq]
      rfl

/-- What holds of every entry of the instruction set holds of what any opcode stands for. -/
theorem forall_decode {P : Instruction → Prop}
    (h : ∀ row ∈ Instruction.matrix, ∀ instruction ∈ row, P instruction) (opcode : UInt8) :
    P (.decode opcode) :=
  h _ (Vector.getElem_mem _) _ (Vector.getElem_mem _)

/-! ## What is left alone -/

variable {M σ : Type} [Memory M]

/-- The memory after an advance, which also keeps the report of an opcode outside the
documented set. -/
def memoryAfter (cpu : Cpu M σ) : M :=
  let ((_, opcode), memory) := cpu.registers.step.run cpu.memory
  match opcode with
  | some opcode =>
    if (Instruction.decode opcode).documented then memory
    else Memory.report memory (Fault.illegalOpcode.note logSource
      ("0x" ++ Text.hexByte opcode ++ " at 0x" ++ Text.hexWord cpu.registers.pc ++
        " executed as NOP"))
  | none => memory

/-- The profile after an advance. -/
def countsAfter (cpu : Cpu M σ) : Vector UInt64 256 :=
  match (cpu.registers.step.run cpu.memory).1.2 with
  | some opcode => (cpu.count opcode).counts
  | none => cpu.counts

/-- What reads and writes keep, a transaction keeps. -/
theorem Transaction.run_induction {α : Type} {P : M → Prop}
    (hread : ∀ memory address, P memory → P (Memory.read memory address).2)
    (hwrite : ∀ memory address value, P memory → P (Memory.write memory address value))
    (transaction : Transaction α) {memory : M} (h : P memory) : P (transaction.run memory).2 := by
  induction transaction generalizing memory with
  | done result => exact h
  | read address next ih => exact ih _ (hread memory address h)
  | write address value next ih => exact ih (hwrite memory address value h)

/-- What reads, writes and reports keep, an advance keeps. -/
theorem memoryAfter_induction {P : M → Prop}
    (hread : ∀ memory address, P memory → P (Memory.read memory address).2)
    (hwrite : ∀ memory address value, P memory → P (Memory.write memory address value))
    (hreport : ∀ memory note, P memory → P (Memory.report memory note))
    {cpu : Cpu M σ} (h : P cpu.memory) : P cpu.memoryAfter := by
  have hrun := Transaction.run_induction hread hwrite cpu.registers.step h
  rcases hresult : cpu.registers.step.run cpu.memory with ⟨⟨registers, opcode⟩, memory⟩
  rw [hresult] at hrun
  simp only [memoryAfter, hresult]
  cases opcode with
  | none => exact hrun
  | some opcode =>
    simp only
    split
    · exact hrun
    · exact hreport _ _ hrun

/-- A step changes the registers, the memory and the profile, and nothing else. -/
theorem advance_eq (cpu : Cpu M σ) :
    cpu.advance =
      (.ran ((cpu.registers.step.run cpu.memory).1.1.cycles - cpu.registers.cycles).toUInt8,
        { cpu with
          registers := (cpu.registers.step.run cpu.memory).1.1
          memory := cpu.memoryAfter
          counts := cpu.countsAfter }) := by
  rcases hrun : cpu.registers.step.run cpu.memory with ⟨⟨registers, opcode⟩, memory⟩
  simp only [advance, memoryAfter, countsAfter, hrun]
  cases opcode with
  | some opcode =>
    simp only [count, reportOpcode]
    split <;> split <;> rfl
  | none => rfl

@[simp] theorem advance_hook (cpu : Cpu M σ) : cpu.advance.2.hook = cpu.hook := by
  rw [advance_eq]

@[simp] theorem advance_memo (cpu : Cpu M σ) : cpu.advance.2.memo = cpu.memo := by
  rw [advance_eq]

@[simp] theorem advance_bypass (cpu : Cpu M σ) : cpu.advance.2.bypass = cpu.bypass := by
  rw [advance_eq]

@[simp] theorem advance_wasRefused (cpu : Cpu M σ) : cpu.advance.1.wasRefused = false := by
  rw [advance_eq]
  rfl

/-- A pending bypass goes ahead without asking the hook. -/
theorem step_of_bypass {cpu : Cpu M σ} (h : cpu.bypass = true) :
    cpu.step = { cpu with bypass := false }.advance := by
  simp [step, h]

/-- Without a hook every step goes ahead. -/
theorem step_of_hook_eq_none {cpu : Cpu M σ} (h : cpu.hook = none) :
    cpu.step = { cpu with bypass := false }.advance := by
  cases hbypass : cpu.bypass with
  | true => exact step_of_bypass hbypass
  | false =>
    have hcpu : { cpu with bypass := false } = cpu := by rw [← hbypass]
    rw [hcpu]
    simp [step, hbypass, h]

/-- With a hook and no bypass the hook is asked, and decides. -/
theorem step_of_hook {cpu : Cpu M σ} {ask : Hook σ} (hbypass : cpu.bypass = false)
    (hhook : cpu.hook = some ask) :
    cpu.step =
      if (ask cpu.registers.pc cpu.memo).1 then
        { cpu with memo := (ask cpu.registers.pc cpu.memo).2 }.advance
      else (.refused cpu.registers.pc, { cpu with memo := (ask cpu.registers.pc cpu.memo).2 }) := by
  obtain ⟨registers, memory, hook, memo, bypass, profiling, counts⟩ := cpu
  subst hbypass hhook
  rfl

/-- A step is an advance that uses a bypass up, or it is refused; all that the hook adds is
what it notes. -/
theorem step_cases (cpu : Cpu M σ) :
    ∃ memo, cpu.step = { cpu with bypass := false, memo }.advance ∨
      cpu.step = (.refused cpu.registers.pc, { cpu with memo }) := by
  obtain ⟨registers, memory, hook, memo, bypass, profiling, counts⟩ := cpu
  cases bypass with
  | true => exact ⟨memo, .inl (step_of_bypass rfl)⟩
  | false =>
    cases hook with
    | none => exact ⟨memo, .inl (step_of_hook_eq_none rfl)⟩
    | some ask =>
      refine ⟨(ask registers.pc memo).2, ?_⟩
      have hstep : step ⟨registers, memory, some ask, memo, false, profiling, counts⟩ = _ :=
        step_of_hook rfl rfl
      split at hstep
      · exact .inl hstep
      · exact .inr hstep

/-- A single step always goes ahead. -/
theorem singleStep_eq (cpu : Cpu M σ) :
    cpu.singleStep = { cpu with bypass := false }.advance :=
  step_of_bypass rfl

omit [Memory M] in
/-- Switching profiling leaves alone all that a step goes by. -/
theorem exists_switchProfiling (cpu : Cpu M σ) (enabled : Bool) :
    ∃ counts, cpu.switchProfiling enabled = { cpu with profiling := enabled, counts } := by
  unfold switchProfiling
  split
  · next hnew =>
    obtain ⟨rfl, -⟩ := Bool.and_eq_true_iff.mp hnew
    exact ⟨_, rfl⟩
  · exact ⟨_, rfl⟩

end AppleOne.Cpu
