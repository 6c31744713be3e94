import AppleOne.Proofs.Cpu.Step

/-!
# Processors on different memories

A step of the processor is a transaction, which says nothing of the memory that answers.
So if two memories answer alike and go on answering alike, two processors on them do the
same, whatever they execute and whatever is asked of them.

## Main definitions

* `Memory.Simulation`: a relation of memories that answer alike.
* `Cpu.Alike`: processors that differ in their memories and profiles only.
* `Cpu.Request` and `Cpu.session`: what can be asked of a processor, and its answers.

## Main results

* `Cpu.Transaction.run_alike`: transactions on memories that answer alike.
* `Cpu.alike_advance`, `Cpu.alike_step`, `Cpu.alike_runFor`: single operations.
* `Cpu.session_alike`: whole sessions.
-/

namespace AppleOne

/-- A relation of memories that answer alike and stay in the relation. -/
structure Memory.Simulation {M N : Type} [Memory M] [Memory N] (R : M → N → Prop) : Prop where
  read_value : ∀ {m n}, R m n → ∀ address, (read m address).1 = (read n address).1
  read : ∀ {m n}, R m n → ∀ address, R (read m address).2 (read n address).2
  write : ∀ {m n}, R m n → ∀ address value, R (write m address value) (write n address value)
  report : ∀ {m n}, R m n → ∀ note, R (report m note) (report n note)

namespace Cpu

/-! ## Requests -/

/-- What a host can ask of a processor. -/
inductive Request (σ : Type) where
  | step
  | singleStep
  | runFor (budget : UInt64)
  | requestIrq
  | withdrawIrq
  | requestNmi
  | reset
  | bypassOnce
  | setHook (hook : Hook σ)
  | clearHook
  | restore (registers : Registers)
  | switchProfiling (enabled : Bool)

/-- What a processor answers. -/
inductive Answer where
  | outcome (outcome : Outcome)
  | cycles (cycles : UInt64)
  | done
  deriving DecidableEq, Repr

section

variable {M σ : Type} [Memory M]

/-- Does what is asked. -/
def perform (cpu : Cpu M σ) : Request σ → Answer × Cpu M σ
  | .step => (.outcome cpu.step.1, cpu.step.2)
  | .singleStep => (.outcome cpu.singleStep.1, cpu.singleStep.2)
  | .runFor budget => (.cycles (cpu.runFor budget).1, (cpu.runFor budget).2)
  | .requestIrq => (.done, cpu.requestIrq)
  | .withdrawIrq => (.done, cpu.withdrawIrq)
  | .requestNmi => (.done, cpu.requestNmi)
  | .reset => (.done, cpu.reset)
  | .bypassOnce => (.done, cpu.bypassOnce)
  | .setHook hook => (.done, cpu.setHook hook)
  | .clearHook => (.done, cpu.clearHook)
  | .restore registers => (.done, cpu.restore registers)
  | .switchProfiling enabled => (.done, cpu.switchProfiling enabled)

/-- Does one thing after the other. Gives back every answer with the registers after it. -/
def session (cpu : Cpu M σ) : List (Request σ) → List (Answer × Registers) × Cpu M σ
  | [] => ([], cpu)
  | request :: rest =>
    let (answer, cpu) := cpu.perform request
    let (answers, last) := cpu.session rest
    ((answer, cpu.registers) :: answers, last)

end

/-! ## The simulation -/

section Alike

variable {M N σ : Type} {R : M → N → Prop}

/-- Processors that differ in their memories and profiles only, with memories that are
related. -/
structure Alike (R : M → N → Prop) (first : Cpu M σ) (second : Cpu N σ) : Prop where
  registers : first.registers = second.registers
  hook : first.hook = second.hook
  memo : first.memo = second.memo
  bypass : first.bypass = second.bypass
  memory : R first.memory second.memory

variable {first : Cpu M σ} {second : Cpu N σ}

theorem alike_bypass (h : Alike R first second) (bypass : Bool) :
    Alike R { first with bypass } { second with bypass } :=
  ⟨h.registers, h.hook, h.memo, rfl, h.memory⟩

theorem alike_memo (h : Alike R first second) (memo : σ) :
    Alike R { first with memo } { second with memo } :=
  ⟨h.registers, h.hook, rfl, h.bypass, h.memory⟩

theorem alike_registers (h : Alike R first second) (f : Registers → Registers) :
    Alike R { first with registers := f first.registers }
      { second with registers := f second.registers } :=
  ⟨congrArg f h.registers, h.hook, h.memo, h.bypass, h.memory⟩

end Alike

variable {M N σ : Type} [Memory M] [Memory N] {R : M → N → Prop}

/-- A transaction has the same result on memories that answer alike. -/
theorem Transaction.run_alike {α : Type} (hR : Memory.Simulation R) (transaction : Transaction α)
    {m : M} {n : N} (h : R m n) :
    (transaction.run m).1 = (transaction.run n).1 ∧
      R (transaction.run m).2 (transaction.run n).2 := by
  induction transaction generalizing m n with
  | done result => exact ⟨rfl, h⟩
  | read address next ih =>
    unfold run
    simp only [hR.read_value h address]
    exact ih _ (hR.read h address)
  | write address value next ih => exact ih (hR.write h address value)

variable {first : Cpu M σ} {second : Cpu N σ}

theorem memoryAfter_alike (hR : Memory.Simulation R)
    (hregisters : first.registers = second.registers) (h : R first.memory second.memory) :
    R first.memoryAfter second.memoryAfter := by
  obtain ⟨hresult, hmemory⟩ := Transaction.run_alike hR first.registers.step h
  unfold memoryAfter
  rw [← hregisters]
  simp only [← hresult]
  cases (first.registers.step.run first.memory).1.2 with
  | none => exact hmemory
  | some opcode =>
    simp only
    split
    · exact hmemory
    · exact hR.report hmemory _

/-- The same opcode is counted on both memories. -/
theorem countsAfter_alike (hR : Memory.Simulation R)
    (hregisters : first.registers = second.registers) (h : R first.memory second.memory)
    (hprofiling : first.profiling = second.profiling) (hcounts : first.counts = second.counts) :
    first.countsAfter = second.countsAfter := by
  obtain ⟨hresult, -⟩ := Transaction.run_alike hR first.registers.step h
  unfold countsAfter
  rw [← hregisters, ← hresult]
  simp only [count, hprofiling, hcounts]
  split
  · split
    · rfl
    · exact hcounts
  · rfl

/-- A step that nobody is asked about. -/
theorem alike_advance (hR : Memory.Simulation R) (h : Alike R first second) :
    first.advance.1 = second.advance.1 ∧ Alike R first.advance.2 second.advance.2 := by
  obtain ⟨hresult, -⟩ := Transaction.run_alike hR first.registers.step h.memory
  have hmemory := memoryAfter_alike hR h.registers h.memory
  rw [advance_eq, advance_eq, ← h.registers, ← hresult]
  exact ⟨rfl, rfl, h.hook, h.memo, h.bypass, hmemory⟩

/-- A step is refused on both memories, or carried out on both. -/
theorem alike_step (hR : Memory.Simulation R) (h : Alike R first second) :
    first.step.1 = second.step.1 ∧ Alike R first.step.2 second.step.2 := by
  by_cases hbypass : first.bypass = true
  · rw [step_of_bypass hbypass, step_of_bypass (h.bypass ▸ hbypass)]
    exact alike_advance hR (alike_bypass h false)
  have hbypass : first.bypass = false := Bool.eq_false_iff.mpr hbypass
  cases hhook : first.hook with
  | none =>
    rw [step_of_hook_eq_none hhook, step_of_hook_eq_none (h.hook ▸ hhook)]
    exact alike_advance hR (alike_bypass h false)
  | some ask =>
    -- both hooks are asked about the same address with the same in mind
    have hask : ask second.registers.pc second.memo = ask first.registers.pc first.memo := by
      rw [h.registers, h.memo]
    rw [step_of_hook hbypass hhook, step_of_hook (h.bypass ▸ hbypass) (h.hook ▸ hhook), hask]
    split
    · exact alike_advance hR (alike_memo h _)
    · exact ⟨congrArg (Outcome.refused ·.pc) h.registers, alike_memo h _⟩

theorem alike_singleStep (hR : Memory.Simulation R) (h : Alike R first second) :
    first.singleStep.1 = second.singleStep.1 ∧
      Alike R first.singleStep.2 second.singleStep.2 := by
  rw [singleStep_eq, singleStep_eq]
  exact alike_advance hR (alike_bypass h false)

/-- The induction is on the number of steps that are left. -/
theorem alike_runUntil (hR : Memory.Simulation R) (target : UInt64) (steps : Nat)
    (h : Alike R first second) :
    Alike R (first.runUntil target steps) (second.runUntil target steps) := by
  induction steps generalizing first second with
  | zero => exact h
  | succ steps ih =>
    obtain ⟨houtcome, hnext⟩ := alike_step hR h
    unfold runUntil
    simp only [← h.registers, ← houtcome]
    split
    · split
      · exact hnext
      · exact ih hnext
    · exact h

theorem alike_runFor (hR : Memory.Simulation R) (h : Alike R first second) (budget : UInt64) :
    (first.runFor budget).1 = (second.runFor budget).1 ∧
      Alike R (first.runFor budget).2 (second.runFor budget).2 := by
  have hrun := alike_runUntil hR (first.registers.cycles + budget) maxSteps h
  simp only [runFor, ← h.registers, hrun.registers, true_and]
  exact hrun

theorem alike_reset (hR : Memory.Simulation R) (h : Alike R first second) :
    Alike R first.reset second.reset := by
  -- the reset vector is read from both memories
  obtain ⟨hvector, hmemory⟩ := Transaction.run_alike hR (fetchWord resetVector) h.memory
  have hrestart : Alike R first.restart second.restart :=
    ⟨by simp only [restart, hvector], h.hook, h.memo, rfl, hmemory⟩
  refine ⟨hrestart.registers, h.hook, h.memo, rfl, ?_⟩
  simp only [reset, report, hrestart.registers]
  exact hR.report hrestart.memory _

/-- Both processors do what is asked in the same way. -/
theorem alike_perform (hR : Memory.Simulation R) (h : Alike R first second)
    (request : Request σ) :
    (first.perform request).1 = (second.perform request).1 ∧
      Alike R (first.perform request).2 (second.perform request).2 := by
  cases request with
  | step => exact ⟨congrArg Answer.outcome (alike_step hR h).1, (alike_step hR h).2⟩
  | singleStep =>
    exact ⟨congrArg Answer.outcome (alike_singleStep hR h).1, (alike_singleStep hR h).2⟩
  | runFor budget =>
    exact ⟨congrArg Answer.cycles (alike_runFor hR h budget).1, (alike_runFor hR h budget).2⟩
  | requestIrq => exact ⟨rfl, alike_registers h ({ · with irqPending := true })⟩
  | withdrawIrq => exact ⟨rfl, alike_registers h ({ · with irqPending := false })⟩
  | requestNmi => exact ⟨rfl, alike_registers h ({ · with nmiPending := true })⟩
  | reset => exact ⟨rfl, alike_reset hR h⟩
  | bypassOnce => exact ⟨rfl, alike_bypass h true⟩
  | setHook hook => exact ⟨rfl, h.registers, rfl, h.memo, h.bypass, h.memory⟩
  | clearHook => exact ⟨rfl, h.registers, rfl, h.memo, h.bypass, h.memory⟩
  | restore registers => exact ⟨rfl, rfl, h.hook, h.memo, rfl, h.memory⟩
  | switchProfiling enabled =>
    obtain ⟨counts, hfirst⟩ := first.exists_switchProfiling enabled
    obtain ⟨counts', hsecond⟩ := second.exists_switchProfiling enabled
    refine ⟨rfl, ?_⟩
    simp only [perform, hfirst, hsecond]
    exact ⟨h.registers, h.hook, h.memo, h.bypass, h.memory⟩

/-- Throughout a session both processors answer the same and have the same registers. -/
theorem session_alike (hR : Memory.Simulation R) (h : Alike R first second)
    (requests : List (Request σ)) :
    (first.session requests).1 = (second.session requests).1 ∧
      Alike R (first.session requests).2 (second.session requests).2 := by
  induction requests generalizing first second with
  | nil => exact ⟨rfl, h⟩
  | cons request rest ih =>
    obtain ⟨hanswer, hnext⟩ := alike_perform hR h request
    obtain ⟨hanswers, hlast⟩ := ih hnext
    simp only [session, hanswer, hnext.registers, hanswers, true_and]
    exact hlast

end Cpu

end AppleOne
