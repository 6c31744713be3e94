import AppleOne.Proofs.Cpu.Step

/-!
# What a step does on the bus

A transaction carried out on a memory is a chain of encounters: each access meets the
memory that the one before it left. A law about the accesses of a program is a law about
encounters, and what holds at each encounter, or up to the first one of some kind, follows
from what a single access keeps.

A step writes to the stack, and to one address elsewhere at most. If it does that, the
write is the last thing that it does.

## Main definitions

* `Encounter`: an access, and the memory that it met.
* `Transaction.encounters`, `Cpu.encounters`: the encounters of a transaction and of a step.
* `Encounter.KeptUntil`: what holds up to the first encounter of some kind.
* `Transaction.WritesWithin`, `Transaction.WritesLast`: where a transaction may write.

## Main results

* `Transaction.run_traced`: the encounters are the accesses that a traced memory notes.
* `Transaction.encounters_split`: each encounter meets the memory that the earlier ones left.
* `Transaction.keptUntil_encounters`: what each access keeps up to the first of some kind.
* `writesLast_step`: outside the stack a step writes with its last access at most.
-/

namespace AppleOne.Cpu

/-- An access, and the memory that it met. -/
structure Encounter (M : Type) where
  memory : M
  access : Access

namespace Encounter

variable {M : Type}

section Memory

variable [Memory M]

/-- The memory that an access left. -/
def after (encounter : Encounter M) : M :=
  match encounter.access with
  | .read address _ => (Memory.read encounter.memory address).2
  | .write address value => Memory.write encounter.memory address value

/-- A byte that was read is the one that the memory had to give. -/
def Faithful (encounter : Encounter M) : Prop :=
  match encounter.access with
  | .read address value => value = (Memory.read encounter.memory address).1
  | .write _ _ => True

/-- The memory that a chain of encounters left. -/
def left (memory : M) (encounters : List (Encounter M)) : M :=
  encounters.foldl (fun _ encounter => encounter.after) memory

end Memory

/-! ## What holds up to the first encounter of some kind -/

variable {ends : Encounter M → Bool} {P : M → Prop} {after next : Prop}
  {first second : List (Encounter M)}

/-- Every encounter up to the first one that ends the chain meets a memory with a property,
and if none ends it something holds after it. -/
def KeptUntil (ends : Encounter M → Bool) (P : M → Prop) (after : Prop) :
    List (Encounter M) → Prop
  | [] => after
  | encounter :: rest =>
    P encounter.memory ∧ (ends encounter = false → KeptUntil ends P after rest)

theorem keptUntil_append :
    KeptUntil ends P after (first ++ second) ↔
      KeptUntil ends P (KeptUntil ends P after second) first := by
  induction first with
  | nil => rfl
  | cons encounter rest ih => exact and_congr_right fun _ => imp_congr_right fun _ => ih

theorem KeptUntil.imp (himp : after → next) (h : KeptUntil ends P after first) :
    KeptUntil ends P next first := by
  induction first with
  | nil => exact himp h
  | cons encounter rest ih => exact ⟨h.1, fun hends => ih (h.2 hends)⟩

/-- The property holds at an encounter before which none ended the chain. -/
theorem KeptUntil.holds_at {encounter : Encounter M}
    (h : KeptUntil ends P after (first ++ encounter :: second))
    (hearlier : ∀ other ∈ first, ends other = false) : P encounter.memory := by
  induction first with
  | nil => exact h.1
  | cons other rest ih =>
    obtain ⟨hother, hrest⟩ := List.forall_mem_cons.mp hearlier
    exact ih (h.2 hother) hrest

/-- If no encounter ends the chain, the end of it is reached. -/
theorem KeptUntil.reached (h : KeptUntil ends P after first)
    (hnone : ∀ encounter ∈ first, ends encounter = false) : after := by
  induction first with
  | nil => exact h
  | cons other rest ih =>
    obtain ⟨hother, hrest⟩ := List.forall_mem_cons.mp hnone
    exact ih (h.2 hother) hrest

end Encounter

namespace Transaction

variable {M α β : Type} [Memory M]

/-- The encounters of a transaction that is carried out on a memory. -/
def encounters : Transaction α → M → List (Encounter M)
  | done _, _ => []
  | read address next, memory =>
    let (value, after) := Memory.read memory address
    ⟨memory, .read address value⟩ :: (next value).encounters after
  | write address value next, memory =>
    ⟨memory, .write address value⟩ :: next.encounters (Memory.write memory address value)

/-- A memory that notes its accesses notes those of the encounters. -/
theorem run_traced (transaction : Transaction α) (memory : M) (noted : List Access) :
    transaction.run (⟨memory, noted⟩ : TracedMemory M) =
      ((transaction.run memory).1,
        ⟨(transaction.run memory).2,
          ((transaction.encounters memory).map (·.access)).reverse ++ noted⟩) := by
  -- the latest access is noted first, so the accesses to come end up before the notes
  induction transaction generalizing memory noted with
  | done result => rfl
  | read address next ih =>
    refine (ih _ _ _).trans ?_
    simp only [run, encounters, List.map_cons, List.reverse_cons, List.append_assoc]
    rfl
  | write address value next ih =>
    refine (ih _ _).trans ?_
    simp only [run, encounters, List.map_cons, List.reverse_cons, List.append_assoc]
    rfl

/-- An encounter meets the memory that the earlier ones left, and reads what is there. -/
theorem encounters_split {transaction : Transaction α} {memory : M}
    {earlier later : List (Encounter M)} {encounter : Encounter M}
    (h : transaction.encounters memory = earlier ++ encounter :: later) :
    encounter.memory = Encounter.left memory earlier ∧ encounter.Faithful := by
  -- either the first access is the one, or it is among the earlier ones
  induction transaction generalizing memory earlier with
  | done result => simp [encounters] at h
  | read address next ih =>
    cases earlier with
    | nil =>
      obtain ⟨rfl, -⟩ := List.cons.inj h
      exact ⟨rfl, rfl⟩
    | cons first earlier =>
      obtain ⟨rfl, hrest⟩ := List.cons.inj h
      exact (ih _ hrest :)
  | write address value next ih =>
    cases earlier with
    | nil =>
      obtain ⟨rfl, -⟩ := List.cons.inj h
      exact ⟨rfl, trivial⟩
    | cons first earlier =>
      obtain ⟨rfl, hrest⟩ := List.cons.inj h
      exact (ih hrest :)

/-- What every access keeps unless it is of some kind, a transaction keeps up to the first
access of that kind. -/
theorem keptUntil_encounters {ends : Encounter M → Bool} {P : M → Prop}
    (hkept : ∀ encounter, P encounter.memory → ends encounter = false → P encounter.after)
    (transaction : Transaction α) {memory : M} (h : P memory) :
    Encounter.KeptUntil ends P (P (transaction.run memory).2) (transaction.encounters memory) := by
  induction transaction generalizing memory with
  | done result => exact h
  | read address next ih => exact ⟨h, fun hends => ih _ (hkept _ h hends)⟩
  | write address value next ih => exact ⟨h, fun hends => ih (hkept _ h hends)⟩

/-! ## Where a transaction may write -/

/-- All writes go to a region. -/
def WritesWithin (region : UInt16 → Prop) : Transaction α → Prop
  | done _ => True
  | read _ next => ∀ value, (next value).WritesWithin region
  | write address _ next => region address ∧ next.WritesWithin region

/-- All writes go to a region, except for one that may end the transaction. -/
def WritesLast (region : UInt16 → Prop) : Transaction α → Prop
  | done _ => True
  | read _ next => ∀ value, (next value).WritesLast region
  | write address _ next =>
    region address ∧ next.WritesLast region ∨ ∃ result, next = done result

variable {region : UInt16 → Prop} {transaction : Transaction α} {f : α → Transaction β}

theorem writesWithin_bind (h : transaction.WritesWithin region)
    (hf : ∀ result, (f result).WritesWithin region) :
    (transaction >>= f).WritesWithin region := by
  induction transaction with
  | done result => exact hf result
  | read address next ih => exact fun value => ih value (h value)
  | write address value next ih => exact ⟨h.1, ih h.2⟩

theorem writesLast_bind (h : transaction.WritesWithin region)
    (hf : ∀ result, (f result).WritesLast region) :
    (transaction >>= f).WritesLast region := by
  induction transaction with
  | done result => exact hf result
  | read address next ih => exact fun value => ih value (h value)
  | write address value next ih =>
    -- something follows this write, so it is not the last access
    exact .inl ⟨h.1, ih h.2⟩

/-- Nothing is written by what only changes the result. -/
theorem writesLast_map (h : transaction.WritesLast region) (g : α → β) :
    (transaction >>= fun result => pure (g result)).WritesLast region := by
  induction transaction with
  | done result => trivial
  | read address next ih => exact fun value => ih value (h value)
  | write address value next ih =>
    rcases h with ⟨haddress, hnext⟩ | ⟨result, rfl⟩
    · exact .inl ⟨haddress, ih hnext⟩
    · exact .inr ⟨g result, rfl⟩

end Transaction

/-- The encounters of a step that is carried out. -/
def encounters {M σ : Type} [Memory M] (cpu : Cpu M σ) : List (Encounter M) :=
  cpu.registers.step.encounters cpu.memory

/-! ## Where a step may write -/

open Transaction

section

variable {region : UInt16 → Prop} (r : Registers)

theorem writesWithin_fetchWord (address : UInt16) : (fetchWord address).WritesWithin region :=
  fun _ _ => trivial

theorem writesWithin_pull : (pull r).WritesWithin region :=
  fun _ => trivial

theorem writesWithin_pullWord : (pullWord r).WritesWithin region :=
  fun _ _ => trivial

theorem writesWithin_locate (mode : AddressingMode) : (locate r mode).WritesWithin region := by
  -- one argument for each byte that has to be read to find the address
  cases mode with
  | implied | accumulator | relative | immediate => trivial
  | zeroPage | zeroPageX | zeroPageY => exact fun _ => trivial
  | absolute | absoluteX | absoluteY => exact fun _ _ => trivial
  | indirectX | indirectY => exact fun _ _ _ => trivial
  | indirect => exact fun _ _ _ _ => trivial

theorem writesWithin_loadOperand (mode : AddressingMode) :
    (loadOperand mode r).WritesWithin region := by
  unfold loadOperand
  split
  · trivial
  · exact writesWithin_bind (writesWithin_locate r mode) fun _ _ => trivial

/-- An operand that is changed is written back at the end. -/
theorem writesLast_modifyOperand (mode : AddressingMode)
    (apply : UInt8 → Flags → UInt8 × Flags) :
    (modifyOperand mode apply r).WritesLast region := by
  unfold modifyOperand
  split
  · trivial
  · exact writesLast_bind (writesWithin_locate r mode) fun _ _ => Or.inr ⟨_, rfl⟩

end

/-- The slots of the stack. -/
def OnStack (address : UInt16) : Prop := ∃ sp, address = stackAddress sp

theorem writesWithin_push (value : UInt8) (r : Registers) :
    (push value r).WritesWithin OnStack :=
  ⟨⟨r.sp, rfl⟩, trivial⟩

theorem writesWithin_pushWord (value : UInt16) (r : Registers) :
    (pushWord value r).WritesWithin OnStack :=
  writesWithin_bind (writesWithin_push _ r) fun r => writesWithin_push _ r

theorem writesWithin_enterHandler (vector returnTo : UInt16) (status : UInt8) (r : Registers) :
    (enterHandler vector returnTo status r).WritesWithin OnStack :=
  writesWithin_bind (writesWithin_pushWord returnTo r) fun r =>
    writesWithin_bind (writesWithin_push status r) fun _ =>
      writesWithin_bind (writesWithin_fetchWord vector) fun _ => trivial

/-- The entry of an interrupt writes to the stack alone. -/
theorem writesWithin_enterInterrupt (vector : UInt16) (r : Registers) :
    (enterInterrupt vector r).WritesWithin OnStack :=
  writesWithin_bind (writesWithin_enterHandler vector r.pc r.status r) fun _ => trivial

theorem writesLast_executeInstruction (instruction : Instruction) (r : Registers) :
    (executeInstruction instruction r).WritesLast OnStack := by
  obtain ⟨operation, mode, cycles⟩ := instruction
  simp only [executeInstruction]
  -- only a store and a change in memory write elsewhere than to the stack
  cases operation.effect with
  | load apply => exact writesLast_bind (writesWithin_loadOperand r mode) fun _ => trivial
  | store value =>
    exact writesLast_bind (writesWithin_locate r mode) fun _ => Or.inr ⟨_, rfl⟩
  | modify apply => exact writesLast_map (writesLast_modifyOperand r mode apply) _
  | internal apply => trivial
  | branch taken =>
    intro offset
    split <;> trivial
  | push value => exact writesLast_bind (writesWithin_push (value r) r) fun _ => trivial
  | pull apply => exact writesLast_bind (writesWithin_pull r) fun _ => trivial
  | jump => exact writesLast_bind (writesWithin_locate r mode) fun _ => trivial
  | call =>
    exact writesLast_bind (writesWithin_fetchWord _) fun _ =>
      writesLast_bind (writesWithin_pushWord _ r) fun _ => trivial
  | returnFromCall => exact writesLast_bind (writesWithin_pullWord r) fun _ => trivial
  | softwareInterrupt =>
    exact writesLast_bind (writesWithin_enterHandler irqVector _ _ r) fun _ => trivial
  | returnFromInterrupt =>
    exact writesLast_bind (writesWithin_pull r) fun pulled =>
      writesLast_bind (writesWithin_pullWord pulled.2) fun _ => trivial

/-- Whether a step is the entry of an interrupt. -/
def Registers.interrupted (r : Registers) : Bool :=
  r.nmiPending || r.irqPending && !r.flags.interruptDisable

theorem Registers.interrupted_eq (r : Registers) : r.interrupted = r.due?.isSome := by
  unfold interrupted due?
  cases r.nmiPending <;> cases r.irqPending && !r.flags.interruptDisable <;> rfl

/-- The entry of an interrupt writes to the stack alone. -/
theorem writesWithin_step_of_interrupted {r : Registers} (h : r.interrupted = true) :
    r.step.WritesWithin OnStack := by
  rw [Registers.interrupted_eq] at h
  obtain ⟨interrupt, hdue⟩ := Option.isSome_iff_exists.mp h
  rw [step_of_due hdue]
  exact writesWithin_bind (writesWithin_enterInterrupt _ _) fun _ => trivial

/-- A step writes to the stack, and elsewhere with its last access at most. -/
theorem writesLast_step (r : Registers) : r.step.WritesLast OnStack := by
  cases hdue : r.due? with
  | some interrupt =>
    rw [step_of_due hdue]
    exact writesLast_bind (writesWithin_enterInterrupt _ _) fun _ => trivial
  | none =>
    rw [step_of_not_due hdue]
    exact fun opcode => writesLast_map (writesLast_executeInstruction (.decode opcode) r) _

end AppleOne.Cpu
