import AppleOne.Proofs.Cpu.Interrupts
import AppleOne.Proofs.Cpu.Stack

/-!
# Subroutines and interrupt handlers

A subroutine is left where it was called, and an interrupt handler where it was entered, if in
between everything else that was pushed has been pulled. Calls, interrupts and bytes that are put
aside may be nested in any way; all that counts is that they do not need more than page one at the
same time.

## Main definitions

* `Cpu.pushes`, `Cpu.pulls`: the bytes that a step pushes or pulls.
* `SameStack`: processors between which nothing has happened to the stack.
* `Nested`: executions in which pushes and pulls belong together in pairs.

## Main results

* `step_of_pushes`, `step_of_pulls`: what becomes of the stack in a step.
* `sameStack_step`: steps that do not concern the stack.
* `Nested.keeps`: what a nested execution leaves alone.
* `nested_stack`: nested use, returns from subroutines and from handlers.
-/

namespace AppleOne.Cpu

open Transaction

/-! ## Stacks of many bytes -/

namespace Stack

variable {s t : Stack} {n : Nat}

/-- Puts bytes onto the stack, one after the other. -/
def pushAll (s : Stack) (values : List UInt8) : Stack := values.foldl push s

/-- Takes so many bytes from the stack. -/
def pullAll (s : Stack) : Nat → Stack
  | 0 => s
  | count + 1 => (s.pullAll count).pull

/-- What was pushed may be taken away again. -/
theorem Keeps.pullAll (values : List UInt8) (h : (s.pushAll values).Keeps n t)
    (hn : n + values.length ≤ 256) : s.Keeps (n + values.length) (t.pullAll values.length) := by
  induction values generalizing s with
  | nil => exact h
  | cons value values ih =>
    rw [List.length_cons] at hn
    exact ((ih h (by omega)).pull (by omega)).2

end Stack

/-! ## Steps -/

variable {M σ : Type} [Memory M] {P : M → Prop} {cpu : Cpu M σ}

/-- The stack of a processor. -/
def stack (cpu : Cpu M σ) : Stack := stackAt cpu.registers.sp cpu.memory

/-- A step that is carried out leaves the registers, and as far as page one is concerned the memory,
that its transaction leaves. -/
theorem stack_step (hram : StackRam P) (hP : P cpu.memory)
    (hran : cpu.step.1.wasRefused = false) :
    P cpu.step.2.memory ∧ cpu.step.2.registers = (cpu.registers.step.run cpu.memory).1.1 ∧
      ∀ sp, stackAt sp cpu.step.2.memory =
        stackAt sp (cpu.registers.step.run cpu.memory).2 := by
  obtain ⟨memo, hstep⟩ := exists_step_eq_advance hran
  have hread (memory : M) (address : UInt16) (h : P memory) := hram.read h address
  have hwrite (memory : M) (address : UInt16) (value : UInt8) (h : P memory) :=
    hram.write h address value
  have hreport (memory : M) (note : Note) (h : P memory) := hram.report h note
  have hleft := run_induction hread hwrite cpu.registers.step hP
  rw [hstep, advance_eq]
  refine ⟨memoryAfter_induction hread hwrite hreport hP, rfl, fun sp => ?_⟩
  -- what comes after the accesses is at most the report of an opcode
  simp only [memoryAfter]
  split
  · split
    · rfl
    · exact hram.stackAt_report hleft sp _
  · rfl

section Classes

variable {instruction : Instruction} {memory : M}

/-- A byte that is pushed. -/
theorem stack_push (hram : StackRam P) (hP : P memory) (r : Registers)
    {value : Registers → UInt8} (h : instruction.operation.effect = .push value) :
    let after := (executeInstruction instruction r).run memory
    stackAt after.1.sp after.2 = (stackAt r.sp memory).push (value r) := by
  simp only [executeInstruction, h]
  exact hram.stackAt_push hP r.sp (value r)

/-- A byte that is pulled. -/
theorem stack_pull (hram : StackRam P) (hP : P memory) (r : Registers)
    {apply : UInt8 → Registers → Registers} (h : instruction.operation.effect = .pull apply)
    (hsp : ∀ value r, (apply value r).sp = r.sp) :
    let after := (executeInstruction instruction r).run memory
    after.1 = (apply (stackAt r.sp memory).top { r with sp := r.sp + 1 }).finish
        instruction.cycles instruction.size ∧
      stackAt after.1.sp after.2 = (stackAt r.sp memory).pull := by
  intro after
  have hregisters : after.1 = (apply (stackAt r.sp memory).top { r with sp := r.sp + 1 }).finish
      instruction.cycles instruction.size := by
    rw [← hram.value_pull hP]
    simp only [after, executeInstruction, h]
    rfl
  refine ⟨hregisters, ?_⟩
  have hpointer : after.1.sp = r.sp + 1 := (congrArg Registers.sp hregisters).trans (hsp _ _)
  rw [hpointer]
  simp only [after, executeInstruction, h]
  exact hram.stackAt_pull hP r.sp

/-- A word that is pushed, high byte first. -/
theorem stackAt_pushWord (hram : StackRam P) (hP : P memory) (value : UInt16) (r : Registers) :
    let after := (pushWord value r).run memory
    P after.2 ∧ after.1 = { r with sp := r.sp - 1 - 1 } ∧
      stackAt (r.sp - 1 - 1) after.2 =
        ((stackAt r.sp memory).push (value >>> 8).toUInt8).push value.toUInt8 := by
  have hfirst := hram.write hP (stackAddress r.sp) (value >>> 8).toUInt8
  refine ⟨hram.write hfirst _ _, rfl, ?_⟩
  refine (hram.stackAt_push hfirst (r.sp - 1) value.toUInt8).trans ?_
  rw [hram.stackAt_push hP]

/-- A word that is pulled, low byte first. -/
theorem stackAt_pullWord (hram : StackRam P) (hP : P memory) (r : Registers) :
    let s := stackAt r.sp memory
    let after := (pullWord r).run memory
    after.1 = (word s.top s.pull.top, { r with sp := r.sp + 1 + 1 }) ∧
      stackAt (r.sp + 1 + 1) after.2 = s.pull.pull := by
  intro s after
  have hfirst := hram.read hP (stackAddress (r.sp + 1))
  have hpull : stackAt (r.sp + 1) (Memory.read memory (stackAddress (r.sp + 1))).2 = s.pull :=
    hram.stackAt_pull hP r.sp
  refine ⟨?_, (hram.stackAt_pull hfirst (r.sp + 1)).trans (congrArg Stack.pull hpull)⟩
  have hlow : (Memory.read memory (stackAddress (r.sp + 1))).1 = s.top := hram.value_pull hP r.sp
  have hhigh := hram.value_pull hfirst (r.sp + 1)
  rw [hpull] at hhigh
  rw [← hlow, ← hhigh]
  rfl

theorem stack_call (hram : StackRam P) (hP : P memory) (r : Registers)
    (h : instruction.operation.effect = .call) :
    let after := (executeInstruction instruction r).run memory
    stackAt after.1.sp after.2 = ((stackAt r.sp memory).push ((r.pc + 2) >>> 8).toUInt8).push
      (r.pc + 2).toUInt8 := by
  have hlow := hram.read hP (r.pc + 1)
  obtain ⟨-, -, hstack⟩ := stackAt_pushWord hram (hram.read hlow (r.pc + 1 + 1)) (r.pc + 2) r
  rw [hram.stackAt_read hlow, hram.stackAt_read hP] at hstack
  simp only [executeInstruction, h]
  exact hstack

theorem stack_returnFromCall (hram : StackRam P) (hP : P memory) (r : Registers)
    (h : instruction.operation.effect = .returnFromCall) :
    let s := stackAt r.sp memory
    let after := (executeInstruction instruction r).run memory
    after.1.pc = word s.top s.pull.top + 1 ∧ stackAt after.1.sp after.2 = s.pull.pull := by
  obtain ⟨hpulled, hstack⟩ := stackAt_pullWord hram hP r
  simp only [executeInstruction, h, run_bind, hpulled]
  exact ⟨rfl, hstack⟩

/-- The place to come back to and the status are pushed for a handler. -/
theorem stack_enterHandler (hram : StackRam P) (hP : P memory) (vector returnTo : UInt16)
    (status : UInt8) (r : Registers) :
    let after := (enterHandler vector returnTo status r).run memory
    stackAt after.1.sp after.2 = (((stackAt r.sp memory).push (returnTo >>> 8).toUInt8).push
      returnTo.toUInt8).push status := by
  obtain ⟨hpushed, hregisters, hstack⟩ := stackAt_pushWord hram hP returnTo r
  rw [← hstack, ← hram.stackAt_push hpushed, ← hram.stackAt_read (hram.write hpushed _ _) _ vector,
    ← hram.stackAt_read (hram.read (hram.write hpushed _ _) vector) _ (vector + 1)]
  rfl

theorem stack_softwareInterrupt (hram : StackRam P) (hP : P memory) (r : Registers)
    (h : instruction.operation.effect = .softwareInterrupt) :
    let after := (executeInstruction instruction r).run memory
    stackAt after.1.sp after.2 = (((stackAt r.sp memory).push ((r.pc + 2) >>> 8).toUInt8).push
      (r.pc + 2).toUInt8).push r.pushedStatus := by
  simp only [executeInstruction, h]
  exact stack_enterHandler hram hP irqVector (r.pc + 2) r.pushedStatus r

theorem stack_returnFromInterrupt (hram : StackRam P) (hP : P memory) (r : Registers)
    (h : instruction.operation.effect = .returnFromInterrupt) :
    let s := stackAt r.sp memory
    let after := (executeInstruction instruction r).run memory
    after.1.pc = word s.pull.top s.pull.pull.top ∧ after.1.flags = .ofByte s.top ∧
      stackAt after.1.sp after.2 = s.pull.pull.pull := by
  intro s
  have hstatus : (Memory.read memory (stackAddress (r.sp + 1))).1 = s.top := hram.value_pull hP r.sp
  have hpull : stackAt (r.sp + 1) (Memory.read memory (stackAddress (r.sp + 1))).2 = s.pull :=
    hram.stackAt_pull hP r.sp
  obtain ⟨hpulled, hstack⟩ :=
    stackAt_pullWord hram (hram.read hP (stackAddress (r.sp + 1))) { r with sp := r.sp + 1 }
  rw [hpull] at hpulled hstack
  have hrun : (pull r).run memory =
      ((s.top, { r with sp := r.sp + 1 }), (Memory.read memory (stackAddress (r.sp + 1))).2) := by
    rw [← hstatus]
    rfl
  simp only [executeInstruction, h, run_bind, hrun, hpulled]
  exact ⟨rfl, rfl, hstack⟩

end Classes

/-- A step that carries out an operation leaves what the instruction at the program counter leaves,
which finds the stack that was there before. -/
theorem Performs.executed {operation : Operation} (h : cpu.Performs operation)
    (hram : StackRam P) (hP : P cpu.memory) :
    let executed := (executeInstruction cpu.current cpu.registers).run cpu.fetched
    P cpu.fetched ∧ stackAt cpu.registers.sp cpu.fetched = cpu.stack ∧
      cpu.step.2.registers = executed.1 ∧ cpu.step.2.stack = stackAt executed.1.sp executed.2 := by
  intro executed
  have hfetched : stackAt cpu.registers.sp cpu.fetched = cpu.stack :=
    hram.stackAt_read hP cpu.registers.sp cpu.registers.pc
  obtain ⟨-, hregisters, hstack⟩ := stack_step hram hP h.ran
  have hrun : (cpu.registers.step.run cpu.memory).1.1 = executed.1 ∧
      (cpu.registers.step.run cpu.memory).2 = executed.2 := by
    rw [step_of_not_due h.due?]
    simp only [run, run_bind]
    exact ⟨rfl, rfl⟩
  refine ⟨hram.read hP _, hfetched, hregisters.trans hrun.1, ?_⟩
  rw [stack, hstack, hrun.2, hregisters, hrun.1]

section Operations

variable (hram : StackRam P) (hP : P cpu.memory)

theorem Performs.effect {operation : Operation} (h : cpu.Performs operation) :
    cpu.current.operation.effect = operation.effect :=
  congrArg Operation.effect h.operation

include hram hP

/-- A subroutine is called: the last byte of the instruction is where to come back to. -/
theorem Performs.call (h : cpu.Performs .jsr) : cpu.step.2.stack =
    (cpu.stack.push ((cpu.registers.pc + 2) >>> 8).toUInt8).push
      (cpu.registers.pc + 2).toUInt8 := by
  obtain ⟨hfetched, hbefore, -, hafter⟩ := h.executed hram hP
  rw [hafter, ← hbefore]
  exact stack_call hram hfetched cpu.registers h.effect

/-- A subroutine is left. -/
theorem Performs.returnFromCall (h : cpu.Performs .rts) :
    cpu.step.2.registers.pc = word cpu.stack.top cpu.stack.pull.top + 1 ∧
      cpu.step.2.stack = cpu.stack.pull.pull := by
  obtain ⟨hfetched, hbefore, hregisters, hafter⟩ := h.executed hram hP
  rw [hregisters, hafter, ← hbefore]
  exact stack_returnFromCall hram hfetched cpu.registers h.effect

/-- A software interrupt. -/
theorem Performs.softwareInterrupt (h : cpu.Performs .brk) : cpu.step.2.stack =
    ((cpu.stack.push ((cpu.registers.pc + 2) >>> 8).toUInt8).push
      (cpu.registers.pc + 2).toUInt8).push cpu.registers.pushedStatus := by
  obtain ⟨hfetched, hbefore, -, hafter⟩ := h.executed hram hP
  rw [hafter, ← hbefore]
  exact stack_softwareInterrupt hram hfetched cpu.registers h.effect

/-- A handler is left. -/
theorem Performs.returnFromInterrupt (h : cpu.Performs .rti) :
    cpu.step.2.registers.pc = word cpu.stack.pull.top cpu.stack.pull.pull.top ∧
      cpu.step.2.registers.flags = .ofByte cpu.stack.top ∧
      cpu.step.2.stack = cpu.stack.pull.pull.pull := by
  obtain ⟨hfetched, hbefore, hregisters, hafter⟩ := h.executed hram hP
  rw [hregisters, hafter, ← hbefore]
  exact stack_returnFromInterrupt hram hfetched cpu.registers h.effect

/-- A byte is put aside. -/
theorem Performs.push {operation : Operation} {value : Registers → UInt8}
    (h : cpu.Performs operation) (heffect : operation.effect = .push value) :
    cpu.step.2.stack = cpu.stack.push (value cpu.registers) := by
  obtain ⟨hfetched, hbefore, -, hafter⟩ := h.executed hram hP
  rw [hafter, ← hbefore]
  exact stack_push hram hfetched cpu.registers (h.effect.trans heffect)

/-- A byte is taken up again. -/
theorem Performs.pull {operation : Operation} {apply : UInt8 → Registers → Registers}
    (h : cpu.Performs operation) (heffect : operation.effect = .pull apply)
    (hsp : ∀ value r, (apply value r).sp = r.sp) :
    cpu.step.2.registers = (apply cpu.stack.top { cpu.registers with sp := cpu.registers.sp + 1
        }).finish cpu.current.cycles cpu.current.size ∧
      cpu.step.2.stack = cpu.stack.pull := by
  obtain ⟨hfetched, hbefore, hregisters, hafter⟩ := h.executed hram hP
  rw [hregisters, hafter, ← hbefore]
  exact stack_pull hram hfetched cpu.registers (h.effect.trans heffect) hsp

theorem Performs.pullAccumulator (h : cpu.Performs .pla) :
    cpu.step.2.registers.a = cpu.stack.top ∧ cpu.step.2.stack = cpu.stack.pull := by
  have heffect : Operation.pla.effect = .pull Registers.loadA := rfl
  obtain ⟨hregisters, hstack⟩ := h.pull hram hP heffect fun _ _ => rfl
  rw [hregisters]
  exact ⟨rfl, hstack⟩

theorem Performs.pullStatus (h : cpu.Performs .plp) :
    cpu.step.2.registers.flags = .ofByte cpu.stack.top ∧ cpu.step.2.stack = cpu.stack.pull := by
  have heffect : Operation.plp.effect = .pull Registers.withStatus := rfl
  obtain ⟨hregisters, hstack⟩ := h.pull hram hP heffect fun _ _ => rfl
  rw [hregisters]
  exact ⟨rfl, hstack⟩

/-- The handler of an interrupt is entered. -/
theorem stack_of_due {interrupt : Interrupt} (hdue : cpu.registers.due? = some interrupt)
    (hran : cpu.step.1.wasRefused = false) : cpu.step.2.stack =
    ((cpu.stack.push (cpu.registers.pc >>> 8).toUInt8).push cpu.registers.pc.toUInt8).push
      cpu.registers.status := by
  obtain ⟨-, hregisters, hafter⟩ := stack_step hram hP hran
  have hentered := stack_enterHandler hram hP interrupt.vector cpu.registers.pc
    cpu.registers.status (cpu.registers.acknowledge interrupt)
  rw [stack, hafter, hregisters, step_of_due hdue, enterInterrupt]
  simp only [run_bind]
  cases interrupt with
  | irq => exact hentered
  | nmi => exact hentered

end Operations

/-! ## Nested executions -/

/-- The bytes that an operation pushes. -/
def Operation.pushes : Operation → Nat
  | .pha | .php => 1
  | .jsr => 2
  | .brk => 3
  | _ => 0

/-- The bytes that an operation pulls. -/
def Operation.pulls : Operation → Nat
  | .pla | .plp => 1
  | .rts => 2
  | .rti => 3
  | _ => 0

/-- The bytes that the next step pushes. The entry of a handler pushes as many as the software
interrupt does. -/
def pushes (cpu : Cpu M σ) : Nat :=
  match cpu.registers.due? with
  | some _ => 3
  | none => cpu.current.operation.pushes

/-- The bytes that the next step pulls. -/
def pulls (cpu : Cpu M σ) : Nat :=
  match cpu.registers.due? with
  | some _ => 0
  | none => cpu.current.operation.pulls

/-- What is pushed in a step. -/
theorem step_of_pushes (hram : StackRam P) (hP : P cpu.memory)
    (hran : cpu.step.1.wasRefused = false) (hpushes : 0 < cpu.pushes) :
    ∃ values : List UInt8, values.length = cpu.pushes ∧
      cpu.step.2.stack = cpu.stack.pushAll values := by
  unfold pushes at hpushes ⊢
  cases hdue : cpu.registers.due? with
  | some interrupt => exact ⟨[_, _, _], rfl, stack_of_due hram hP hdue hran⟩
  | none =>
    have hperforms : cpu.Performs cpu.current.operation := ⟨hdue, hran, rfl⟩
    rw [hdue] at hpushes
    cases hop : cpu.current.operation with
    | pha => exact ⟨[_], rfl, Performs.push hram hP (hop ▸ hperforms) rfl⟩
    | php => exact ⟨[_], rfl, Performs.push hram hP (hop ▸ hperforms) rfl⟩
    | jsr => exact ⟨[_, _], rfl, Performs.call hram hP (hop ▸ hperforms)⟩
    | brk => exact ⟨[_, _, _], rfl, Performs.softwareInterrupt hram hP (hop ▸ hperforms)⟩
    | _ =>
      rw [hop] at hpushes
      exact absurd hpushes (by decide)

/-- What is pulled in a step is taken from the stack. -/
theorem step_of_pulls (hram : StackRam P) (hP : P cpu.memory)
    (hran : cpu.step.1.wasRefused = false) (hpulls : 0 < cpu.pulls) :
    cpu.step.2.stack = cpu.stack.pullAll cpu.pulls := by
  unfold pulls at hpulls ⊢
  cases hdue : cpu.registers.due? with
  | some interrupt =>
    rw [hdue] at hpulls
    exact absurd hpulls (Nat.lt_irrefl 0)
  | none =>
    have hperforms : cpu.Performs cpu.current.operation := ⟨hdue, hran, rfl⟩
    rw [hdue] at hpulls
    cases hop : cpu.current.operation with
    | pla => exact (Performs.pullAccumulator hram hP (hop ▸ hperforms)).2
    | plp => exact (Performs.pullStatus hram hP (hop ▸ hperforms)).2
    | rts => exact (Performs.returnFromCall hram hP (hop ▸ hperforms)).2
    | rti => exact (Performs.returnFromInterrupt hram hP (hop ▸ hperforms)).2.2
    | _ =>
      rw [hop] at hpulls
      exact absurd hpulls (by decide)

/-- Nothing has happened to the stack between two states of a processor, and page one is still RAM.
This may be a step that neither pushes nor pulls nor writes to page one, a refused step, or whatever
is done to the processor and its memory between steps. -/
structure SameStack (P : M → Prop) (first next : Cpu M σ) : Prop where
  memory : P next.memory
  stack : next.stack = first.stack

/-- An instruction that does not move the stack pointer and writes elsewhere does nothing to the
stack. -/
theorem sameStack_step (hram : StackRam P) (hP : P cpu.memory) (hdue : cpu.registers.due? = none)
    (hran : cpu.step.1.wasRefused = false)
    (hoperation : cpu.current.operation ∉ Registers.Part.changers .sp)
    (hwrites : ∀ write ∈ cpu.written, ¬ OnStack write.1) : cpu.SameStack P cpu.step.2 := by
  obtain ⟨hkept, -, hafter⟩ := stack_step hram hP hran
  have houtcome := congrArg Prod.fst (outcome_current hdue hran)
  have hsp : cpu.step.2.registers.sp = cpu.registers.sp := by
    have hchanges : ¬ cpu.current.Changes .sp := by
      rintro (hmem | ⟨hpart, -⟩)
      · exact hoperation hmem
      · cases hpart
    have hvalue := keeps_decode (Memory.read cpu.memory cpu.registers.pc).1 cpu.registers
      cpu.fetched .sp hchanges
    exact UInt8.toNat_inj.mp ((congrArg (Registers.Part.value · .sp) houtcome).symm.trans hvalue)
  obtain ⟨-, hstack⟩ := hram.run_of_writes hP hwrites cpu.registers.sp
  refine ⟨hkept, ?_⟩
  rw [stack, hsp, hafter]
  exact hstack

/-- Executions in which every step that pushes has a step of its own that pulls as many bytes, with
a nested execution in between, and in which there are never more than so many bytes on the stack in
addition to those that were there before. -/
inductive Nested (P : M → Prop) : Nat → Cpu M σ → Cpu M σ → Prop where
  | refl {depth} (cpu) : Nested P depth cpu cpu
  | idle {depth first next last} (same : first.SameStack P next) (rest : Nested P depth next last) :
    Nested P depth first last
  | pair {used depth first inner last} (pushes : 0 < first.pushes)
    (ran : first.step.1.wasRefused = false) (nested : Nested P used first.step.2 inner)
    (pulls : inner.pulls = first.pushes) (ran' : inner.step.1.wasRefused = false)
    (fits : used + first.pushes ≤ depth) (rest : Nested P depth inner.step.2 last) :
    Nested P depth first last

variable {depth : Nat} {first inner last : Cpu M σ}

/-- A nested execution that does not need more than page one leaves the stack pointer where it was,
and the bytes in slots that were not needed. -/
theorem Nested.keeps (hram : StackRam P) (h : Nested P depth first last) (hdepth : depth ≤ 256)
    (hP : P first.memory) : P last.memory ∧ first.stack.Keeps depth last.stack := by
  induction h with
  | refl cpu => exact ⟨hP, .refl _⟩
  | idle same rest ih =>
    obtain ⟨hlast, hkeeps⟩ := ih hdepth same.memory
    exact ⟨hlast, same.stack ▸ hkeeps⟩
  | pair pushes ran nested pulls ran' fits rest ihNested ihRest =>
    obtain ⟨values, hlength, hpushed⟩ := step_of_pushes hram hP ran pushes
    obtain ⟨hstep, -⟩ := stack_step hram hP ran
    obtain ⟨hinner, hkeeps⟩ := ihNested (by omega) hstep
    rw [hpushed] at hkeeps
    have hpulled := step_of_pulls hram hinner ran' (pulls ▸ pushes)
    rw [pulls, ← hlength] at hpulled
    have hkept := hkeeps.pullAll values (by omega)
    rw [← hpulled, hlength] at hkept
    obtain ⟨hnext, -⟩ := stack_step hram hinner ran'
    obtain ⟨hlast, hrest⟩ := ihRest hdepth hnext
    exact ⟨hlast, (hkept.mono fits).trans hrest⟩

/-- A status byte has room for all flags, and neither the break bit nor bit 5 is one of them. -/
theorem ofByte_toByte (flags : Flags) :
    Flags.ofByte flags.toByte = flags ∧ Flags.ofByte (flags.toByte ||| breakBit) = flags := by
  have hall : ∀ n v d i z c : Bool,
      Flags.ofByte (Flags.mk n v d i z c).toByte = ⟨n, v, d, i, z, c⟩ ∧
        Flags.ofByte ((Flags.mk n v d i z c).toByte ||| breakBit) = ⟨n, v, d, i, z, c⟩ := by
    decide
  exact hall _ _ _ _ _ _

section Pairs

variable (hram : StackRam P) (hP : P first.memory)

include hram hP

/-- A subroutine is left for the instruction after the one that called it. -/
theorem return_of_call (hcall : first.Performs .jsr) (h : Nested P 254 first.step.2 inner)
    (hreturn : inner.Performs .rts) :
    inner.step.2.registers.pc = first.registers.pc + 3 ∧
      inner.step.2.registers.sp = first.registers.sp := by
  obtain ⟨hstep, -⟩ := stack_step hram hP hcall.ran
  obtain ⟨hinner, hkeeps⟩ := h.keeps hram (by decide) hstep
  rw [hcall.call hram hP] at hkeeps
  obtain ⟨hlow, hkeeps⟩ := hkeeps.pull (by decide)
  obtain ⟨hhigh, hkeeps⟩ := hkeeps.pull (by decide)
  obtain ⟨hpc, hstack⟩ := hreturn.returnFromCall hram hinner
  rw [hlow, hhigh, word_bytes] at hpc
  rw [← hstack] at hkeeps
  exact ⟨hpc.trans (UInt16.add_assoc _ 2 1), hkeeps.pointer⟩

/-- A handler finds a place to come back to and a status. It is left for this place with the flags
of the status. -/
theorem return_of_enter {returnTo : UInt16} {status : UInt8}
    (hran : first.step.1.wasRefused = false)
    (henter : first.step.2.stack = ((first.stack.push (returnTo >>> 8).toUInt8).push
      returnTo.toUInt8).push status)
    (h : Nested P 253 first.step.2 inner) (hreturn : inner.Performs .rti) :
    inner.step.2.registers.pc = returnTo ∧ inner.step.2.registers.flags = .ofByte status ∧
      inner.step.2.registers.sp = first.registers.sp := by
  obtain ⟨hstep, -⟩ := stack_step hram hP hran
  obtain ⟨hinner, hkeeps⟩ := h.keeps hram (by decide) hstep
  rw [henter] at hkeeps
  obtain ⟨hstatus, hkeeps⟩ := hkeeps.pull (by decide)
  obtain ⟨hlow, hkeeps⟩ := hkeeps.pull (by decide)
  obtain ⟨hhigh, hkeeps⟩ := hkeeps.pull (by decide)
  obtain ⟨hpc, hflags, hstack⟩ := hreturn.returnFromInterrupt hram hinner
  rw [hlow, hhigh, word_bytes] at hpc
  rw [hstatus] at hflags
  rw [← hstack] at hkeeps
  exact ⟨hpc, hflags, hkeeps.pointer⟩

/-- What is pushed is pulled. -/
theorem pull_of_push {operation : Operation} {value : Registers → UInt8}
    (hpush : first.Performs operation) (heffect : operation.effect = .push value)
    (h : Nested P 255 first.step.2 inner) :
    P inner.memory ∧ inner.stack.top = value first.registers ∧
      inner.stack.pull.pointer = first.registers.sp := by
  obtain ⟨hstep, -⟩ := stack_step hram hP hpush.ran
  obtain ⟨hinner, hkeeps⟩ := h.keeps hram (by decide) hstep
  rw [hpush.push hram hP heffect] at hkeeps
  obtain ⟨htop, hkeeps⟩ := hkeeps.pull (by decide)
  exact ⟨hinner, htop, hkeeps.pointer⟩

end Pairs

/-- If page one is RAM, everything that is pushed comes back, whatever is pushed and pulled in
between, as long as that is nested and fits into page one. So subroutines and handlers are left for
where they were entered from, with the stack pointer as it was, and handlers with the flags as they
were; and what was put aside is there again. -/
theorem nested_stack (hram : StackRam P) :
    (∀ (nest : Nest) (r : Registers) (memory : M), P memory → nest.depth ≤ 256 →
      (∀ work ∈ nest.works, work.WritesWithin (¬ OnStack ·)) →
      ∃ left, (nest.run r).run memory = ((nest.pushed, r), left) ∧
        ∀ address, ¬ OnStack address →
          (∀ work ∈ nest.works, ∀ memory, P memory →
            Memory.peek (work.run memory).2 address = Memory.peek memory address) →
          Memory.peek left address = Memory.peek memory address) ∧
    ∀ first : Cpu M σ, P first.memory →
      (∀ last, Nested P 256 first last → last.registers.sp = first.registers.sp) ∧
      (∀ inner, first.Performs .jsr → Nested P 254 first.step.2 inner → inner.Performs .rts →
        inner.step.2.registers.pc = first.registers.pc + 3 ∧
          inner.step.2.registers.sp = first.registers.sp) ∧
      (∀ inner, first.Performs .brk → Nested P 253 first.step.2 inner → inner.Performs .rti →
        inner.step.2.registers.pc = first.registers.pc + 2 ∧
          inner.step.2.registers.flags = first.registers.flags ∧
          inner.step.2.registers.sp = first.registers.sp) ∧
      (∀ inner interrupt, first.registers.due? = some interrupt →
        first.step.1.wasRefused = false → Nested P 253 first.step.2 inner → inner.Performs .rti →
        inner.step.2.registers.pc = first.registers.pc ∧
          inner.step.2.registers.flags = first.registers.flags ∧
          inner.step.2.registers.sp = first.registers.sp) ∧
      (∀ inner, first.Performs .pha → Nested P 255 first.step.2 inner → inner.Performs .pla →
        inner.step.2.registers.a = first.registers.a ∧
          inner.step.2.registers.sp = first.registers.sp) ∧
      ∀ inner, first.Performs .php → Nested P 255 first.step.2 inner → inner.Performs .plp →
        inner.step.2.registers.flags = first.registers.flags ∧
          inner.step.2.registers.sp = first.registers.sp := by
  refine ⟨fun nest r memory hP hdepth hworks => ?_, fun first hP =>
    ⟨fun last h => ?_, fun inner hcall h hreturn => return_of_call hram hP hcall h hreturn,
      fun inner hbreak h hreturn => ?_, fun inner interrupt hdue hran h hreturn => ?_,
      fun inner hpush h hpull => ?_, fun inner hpush h hpull => ?_⟩⟩
  · obtain ⟨left, hrun, -, -, helsewhere⟩ := run_nest hram hdepth hworks r hP
    exact ⟨left, hrun, helsewhere⟩
  · exact (h.keeps hram (Nat.le_refl 256) hP).2.pointer
  · obtain ⟨hpc, hflags, hsp⟩ := return_of_enter hram hP hbreak.ran
      (hbreak.softwareInterrupt hram hP) h hreturn
    exact ⟨hpc, hflags.trans (ofByte_toByte _).2, hsp⟩
  · obtain ⟨hpc, hflags, hsp⟩ := return_of_enter hram hP hran
      (stack_of_due hram hP hdue hran) h hreturn
    exact ⟨hpc, hflags.trans (ofByte_toByte _).1, hsp⟩
  · obtain ⟨hinner, htop, hpointer⟩ := pull_of_push hram hP hpush rfl h
    obtain ⟨ha, hstack⟩ := hpull.pullAccumulator hram hinner
    exact ⟨ha.trans htop, (congrArg Stack.pointer hstack).trans hpointer⟩
  · obtain ⟨hinner, htop, hpointer⟩ := pull_of_push hram hP hpush rfl h
    obtain ⟨hflags, hstack⟩ := hpull.pullStatus hram hinner
    rw [htop] at hflags
    exact ⟨hflags.trans (ofByte_toByte _).2, (congrArg Stack.pointer hstack).trans hpointer⟩

/-- A stack pointer of zero goes around when a subroutine is called. The subroutine puts a byte
aside and takes it up again before it returns. -/
theorem nested_stack_around :
    let first : Cpu PlainMemory Unit :=
      { registers := { Registers.initial with pc := 0x0200, sp := 0 }
        memory := ((PlainMemory.zeros 0).load 0x0200 [0x20, 0x06, 0x02]).load 0x0206
          [0x48, 0xA9, 0x07, 0x68, 0x60]
        memo := () }
    let last := first.step.2.step.2.step.2.step.2
    last.step.2.registers.pc = 0x0203 ∧ last.step.2.registers.sp = 0 := by
  intro first last
  let pushing := first.step.2
  let loading := pushing.step.2
  let pulling := loading.step.2
  have hcall : first.Performs .jsr := ⟨rfl, rfl, by decide +kernel⟩
  have hpush : 0 < pushing.pushes ∧ pushing.step.1.wasRefused = false ∧
      pulling.pulls = pushing.pushes ∧ pulling.step.1.wasRefused = false ∧
      0 + pushing.pushes ≤ 254 := by
    decide +kernel
  have hload : loading.registers.due? = none ∧ loading.step.1.wasRefused = false ∧
      loading.current.operation ∉ Registers.Part.changers .sp ∧ loading.written = [] := by
    decide +kernel
  have hlast : last.registers.due? = none ∧ last.step.1.wasRefused = false ∧
      last.current.operation = .rts := by
    decide +kernel
  obtain ⟨hpushes, hran, hpulls, hran', hfits⟩ := hpush
  obtain ⟨hdue, hloaded, hoperation, hwritten⟩ := hload
  obtain ⟨hlastDue, hlastRan, hreturns⟩ := hlast
  have hsame : loading.SameStack (fun _ => True) pulling :=
    sameStack_step stackRam_plainMemory trivial hdue hloaded hoperation
      (by rw [hwritten]; exact nofun)
  have hnested : Nested (fun _ => True) 254 pushing last :=
    .pair hpushes hran (.idle hsame (.refl pulling)) hpulls hran' hfits (.refl last)
  obtain ⟨-, hpairs⟩ := @nested_stack PlainMemory Unit _ _ stackRam_plainMemory
  obtain ⟨-, hcalls, -⟩ := hpairs first trivial
  exact hcalls last hcall hnested ⟨hlastDue, hlastRan, hreturns⟩

end AppleOne.Cpu
