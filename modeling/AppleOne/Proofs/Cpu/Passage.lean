import AppleOne.Proofs.Cpu.Step

/-!
# What a step takes

Every instruction takes between two and seven cycles, whatever bytes it meets, and the entry of
an interrupt handler takes seven. No instruction touches the latches of the interrupts: they
change when a request comes in or is withdrawn, and when the handler is entered.

## Main definitions

* `Transaction.Returns`: what holds of the result of a transaction, on every memory.
* `Registers.Passed`: registers after some cycles, with the latches as they were.
* `Effect.penalty`: the cycles that may come on top of those in the instruction set.

## Main results

* `Transaction.Returns.run`, `Transaction.returns_bind`: results of transactions.
* `returns_executeInstruction`: the cycles of an instruction.
* `returns_step`: the cycles of a step.
* `cycles_advance`: what an advance reports and what it adds to the counter.
-/

namespace AppleOne.Cpu

namespace Transaction

variable {α β : Type} {P : α → Prop} {Q : β → Prop}

/-- A property that the result has, whatever bytes are read on the way to it. -/
def Returns (P : α → Prop) : Transaction α → Prop
  | done result => P result
  | read _ next => ∀ value, (next value).Returns P
  | write _ _ next => next.Returns P

theorem Returns.run {M : Type} [Memory M] {transaction : Transaction α}
    (h : transaction.Returns P) (memory : M) : P (transaction.run memory).1 := by
  induction transaction generalizing memory with
  | done result => exact h
  | read address next ih => exact ih _ (h _) _
  | write address value next ih => exact ih h _

theorem Returns.imp {R : α → Prop} {transaction : Transaction α} (h : transaction.Returns P)
    (himp : ∀ result, P result → R result) : transaction.Returns R := by
  induction transaction with
  | done result => exact himp result h
  | read address next ih => exact fun value => ih value (h value)
  | write address value next ih => exact ih h

theorem returns_bind {transaction : Transaction α} {f : α → Transaction β}
    (h : transaction.Returns P) (hf : ∀ result, P result → (f result).Returns Q) :
    (transaction >>= f).Returns Q := by
  induction transaction with
  | done result => exact hf result h
  | read address next ih => exact fun value => ih value (h value)
  | write address value next ih => exact ih h

/-- Nothing is known of a result that is not looked at. -/
theorem returns_trivial (transaction : Transaction α) : transaction.Returns fun _ => True := by
  induction transaction with
  | done result => trivial
  | read address next ih => exact ih
  | write address value next ih => exact ih

end Transaction

/-! ## Cycles and latches -/

/-- Registers after a number of cycles, in which the latches were left alone. -/
structure Registers.Passed (before : Registers) (cycles : Nat) (after : Registers) : Prop where
  cycles : after.cycles = before.cycles + cycles.toUInt64
  irqPending : after.irqPending = before.irqPending
  nmiPending : after.nmiPending = before.nmiPending

namespace Registers.Passed

variable {first second third : Registers} {m n : Nat}

theorem refl (r : Registers) : r.Passed 0 r :=
  ⟨(UInt64.add_zero r.cycles).symm, rfl, rfl⟩

theorem trans (h : first.Passed m second) (h' : second.Passed n third) :
    first.Passed (m + n) third where
  cycles := by
    rw [h'.cycles, h.cycles, UInt64.add_assoc]
    exact congrArg _ (UInt64.ofNat_add m n).symm
  irqPending := h'.irqPending.trans h.irqPending
  nmiPending := h'.nmiPending.trans h.nmiPending

/-- Registers are told apart by the counter and the latches only. -/
theorem congr (h : first.Passed n second) (hcycles : third.cycles = second.cycles)
    (hirq : third.irqPending = second.irqPending) (hnmi : third.nmiPending = second.nmiPending) :
    first.Passed n third :=
  ⟨hcycles.trans h.cycles, hirq.trans h.irqPending, hnmi.trans h.nmiPending⟩

/-- Only the cycles that are spent count after what takes none. -/
theorem spend (h : first.Passed 0 second) (n : Nat) : first.Passed n (second.spend n) := by
  have hspent : second.Passed n (second.spend n) := ⟨rfl, rfl, rfl⟩
  simpa using h.trans hspent

theorem finish (h : first.Passed 0 second) (n size : Nat) :
    first.Passed n (second.finish n size) := by
  have hspent : second.Passed n (second.finish n size) := ⟨rfl, rfl, rfl⟩
  simpa using h.trans hspent

end Registers.Passed

/-! ## Instructions -/

/-- What an operation does to the registers takes no time and leaves the latches. -/
def Effect.Timeless : Effect → Prop
  | load apply | pull apply => ∀ value r, Registers.Passed r 0 (apply value r)
  | internal apply => ∀ r, Registers.Passed r 0 (apply r)
  | _ => True

theorem timeless_effect (operation : Operation) : operation.effect.Timeless := by
  have hsame (r : Registers) : r.Passed 0 r := .refl r
  cases operation with
  | adc | sbc | and | ora | eor | cmp | cpx | cpy | bit | lda | ldx | ldy | pla | plp =>
    exact fun _ r => (hsame r).congr rfl rfl rfl
  | inx | dex | iny | dey | tax | tay | txa | tya | tsx | txs | clc | sec | cld | sed | cli | sei
  | clv | nop | undocumented => exact fun r => (hsame r).congr rfl rfl rfl
  | _ => trivial

open Transaction

theorem returns_push (value : UInt8) (r : Registers) :
    (push value r).Returns (r.Passed 0) :=
  (Registers.Passed.refl r).congr rfl rfl rfl

theorem returns_pushWord (value : UInt16) (r : Registers) :
    (pushWord value r).Returns (r.Passed 0) :=
  returns_bind (returns_push _ r) fun pushed hpushed =>
    (returns_push _ pushed).imp fun _ h => hpushed.trans h

theorem returns_pull (r : Registers) :
    (pull r).Returns fun pulled => r.Passed 0 pulled.2 :=
  fun _ => (Registers.Passed.refl r).congr rfl rfl rfl

theorem returns_pullWord (r : Registers) :
    (pullWord r).Returns fun pulled => r.Passed 0 pulled.2 :=
  returns_bind (returns_pull r) fun low hlow =>
    returns_bind (returns_pull low.2) fun _ h => hlow.trans h

theorem returns_enterHandler (vector returnTo : UInt16) (status : UInt8) (r : Registers) :
    (enterHandler vector returnTo status r).Returns (r.Passed 0) :=
  returns_bind (returns_pushWord returnTo r) fun word hword =>
    returns_bind (returns_push status word) fun _ hpushed =>
      returns_bind (returns_trivial _) fun _ _ => (hword.trans hpushed).congr rfl rfl rfl

theorem returns_modifyOperand (mode : AddressingMode) (apply : UInt8 → Flags → UInt8 × Flags)
    (r : Registers) : (modifyOperand mode apply r).Returns (r.Passed 0) := by
  have hsame : r.Passed 0 r := .refl r
  unfold modifyOperand
  split
  · exact hsame.congr rfl rfl rfl
  · exact returns_bind (returns_trivial _) fun _ _ => fun _ => hsame.congr rfl rfl rfl

/-- The most cycles that may come on top of those in the instruction set: one for an operand
across a page, two for a branch. -/
def Effect.penalty : Effect → Nat
  | load _ => 1
  | branch _ => 2
  | _ => 0

/-- An instruction takes its base cycles, and few more. -/
theorem returns_executeInstruction (instruction : Instruction) (r : Registers) :
    (executeInstruction instruction r).Returns fun after =>
      ∃ extra ≤ instruction.operation.effect.penalty,
        r.Passed (instruction.cycles + extra) after := by
  obtain ⟨operation, mode, cycles⟩ := instruction
  have htimeless := timeless_effect operation
  have hsame : r.Passed 0 r := .refl r
  simp only [executeInstruction]
  cases heffect : operation.effect with
  | load apply =>
    rw [heffect] at htimeless
    refine returns_bind (returns_trivial _) fun operand _ => ?_
    -- one more cycle for an operand across a page
    exact ⟨operand.2.toNat, operand.2.toNat_le, (htimeless operand.1 r).finish _ _⟩
  | store value => exact returns_bind (returns_trivial _) fun _ _ => ⟨0, by simp, hsame.finish _ _⟩
  | modify apply =>
    exact returns_bind (returns_modifyOperand mode apply r) fun _ h => ⟨0, by simp, h.finish _ _⟩
  | internal apply =>
    rw [heffect] at htimeless
    exact ⟨0, by simp, (htimeless r).finish _ _⟩
  | branch taken =>
    intro offset
    -- a branch that is taken pays for it, and once more across a page
    split
    · have hpenalty : branchPenalty r.pc (branchTarget r.pc offset) ≤ 2 :=
        Nat.add_le_add_left (Bool.toNat_le _) 1
      exact ⟨_, hpenalty, (hsame.spend _).congr rfl rfl rfl⟩
    · exact ⟨0, by simp, hsame.finish _ _⟩
  | push value =>
    exact returns_bind (returns_push _ r) fun _ h => ⟨0, by simp, h.finish _ _⟩
  | pull apply =>
    rw [heffect] at htimeless
    exact returns_bind (returns_pull r) fun pulled h =>
      ⟨0, by simp, (h.trans (htimeless pulled.1 pulled.2)).finish _ _⟩
  | jump =>
    exact returns_bind (returns_trivial _) fun _ _ =>
      ⟨0, by simp, (hsame.spend _).congr rfl rfl rfl⟩
  | call =>
    refine returns_bind (returns_trivial _) fun _ _ => ?_
    exact returns_bind (returns_pushWord _ r) fun _ h =>
      ⟨0, by simp, (h.spend _).congr rfl rfl rfl⟩
  | returnFromCall =>
    exact returns_bind (returns_pullWord r) fun _ h =>
      ⟨0, by simp, (h.spend _).congr rfl rfl rfl⟩
  | softwareInterrupt =>
    exact returns_bind (returns_enterHandler _ _ _ r) fun _ h => ⟨0, by simp, h.spend _⟩
  | returnFromInterrupt =>
    refine returns_bind (returns_pull r) fun status hstatus => ?_
    exact returns_bind (returns_pullWord status.2) fun _ h =>
      ⟨0, by simp, ((hstatus.trans h).spend _).congr rfl rfl rfl⟩

/-- The entry of an interrupt handler takes seven cycles. -/
theorem returns_enterInterrupt (vector : UInt16) (r : Registers) :
    (enterInterrupt vector r).Returns (r.Passed interruptCycles) :=
  returns_bind (returns_enterHandler vector r.pc r.status r) fun _ h => h.spend interruptCycles

/-! ## Steps -/

/-- The instructions with seven base cycles are none of those that may take more. -/
theorem cycles_decode (opcode : UInt8) :
    2 ≤ (Instruction.decode opcode).cycles ∧
      (Instruction.decode opcode).cycles +
        (Instruction.decode opcode).operation.effect.penalty ≤ 7 := by
  have hmatrix : ∀ row ∈ Instruction.matrix, ∀ instruction ∈ row, 2 ≤ instruction.cycles ∧
      instruction.cycles + instruction.operation.effect.penalty ≤ 7 := by decide
  exact forall_decode hmatrix opcode

/-- A step adds between two and seven cycles to the counter. -/
theorem returns_step (r : Registers) :
    r.step.Returns fun after =>
      ∃ cycles, 2 ≤ cycles ∧ cycles ≤ 7 ∧ after.1.cycles = r.cycles + cycles.toUInt64 := by
  cases hdue : r.due? with
  | some interrupt =>
    rw [step_of_due hdue]
    refine returns_bind (returns_enterInterrupt _ _) fun after hpassed => ?_
    have hcycles : after.cycles = r.cycles + interruptCycles.toUInt64 := by
      rw [hpassed.cycles, r.cycles_acknowledge]
    exact ⟨interruptCycles, by decide, by decide, hcycles⟩
  | none =>
    rw [step_of_not_due hdue]
    intro opcode
    obtain ⟨hlow, hhigh⟩ := cycles_decode opcode
    refine returns_bind (returns_executeInstruction _ r) fun after => ?_
    rintro ⟨extra, hextra, hpassed⟩
    exact ⟨_, by omega, by omega, hpassed.cycles⟩

variable {M σ : Type} [Memory M]

/-- An advance reports between two and seven cycles, and adds them to the counter, which has 64
bits. -/
theorem cycles_advance (cpu : Cpu M σ) :
    2 ≤ cpu.advance.1.cycles.toNat ∧ cpu.advance.1.cycles.toNat ≤ 7 ∧
      cpu.advance.2.registers.cycles.toNat =
        (cpu.registers.cycles.toNat + cpu.advance.1.cycles.toNat) % UInt64.size := by
  obtain ⟨cycles, hlow, hhigh, hcycles⟩ := (returns_step cpu.registers).run cpu.memory
  -- the difference of the counters, cut to a byte, is the number that was added
  have hbyte : (cycles.toUInt64.toUInt8).toNat = cycles := by
    rw [UInt64.toNat_toUInt8, UInt64.toNat_ofNat']
    omega
  have hword : cycles.toUInt64.toNat = cycles := by
    rw [UInt64.toNat_ofNat']
    omega
  rw [advance_eq]
  have hreported : cpu.registers.cycles + cycles.toUInt64 - cpu.registers.cycles =
      cycles.toUInt64 := by
    rw [UInt64.add_comm, UInt64.add_sub_cancel]
  simp only [Outcome.cycles, hcycles, hreported, hbyte, UInt64.toNat_add, hword]
  exact ⟨hlow, hhigh, trivial⟩

end AppleOne.Cpu
