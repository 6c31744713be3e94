import AppleOne.Proofs.Cpu.Frame
import AppleOne.Proofs.Cpu.Timing

/-!
# The stack

The stack is page one, with a pointer that goes around in it. Whatever is pushed is there when it
is pulled, if everything that was pushed after it has been pulled before and there was never more
on the stack than page one holds. What else happens in between does not matter if it writes
elsewhere.

The law is about a pointer and 256 slots. It holds of a memory whose page one is RAM; what answers
at other addresses may be anything.

## Main definitions

* `Stack`: a stack by itself; `Stack.Keeps`: what a nested use leaves alone.
* `StackRam`: memories whose page one is RAM.
* `Nest`: a nested use of the stack, and `Nest.run`, which carries it out.

## Main results

* `Stack.Keeps.pull`: the byte that was pushed is pulled.
* `stackRam_plainMemory`, `stackRam_bus`: memories whose page one is RAM.
* `run_nest`: every pull returns what was pushed, and the stack pointer is where it was.
-/

namespace AppleOne.Cpu

/-! ## A stack by itself -/

/-- A stack pointer, and the bytes in the slots to which it may point. -/
structure Stack where
  pointer : UInt8
  slots : UInt8 → UInt8

namespace Stack

/-- Puts a byte into the slot to which the pointer points. -/
def push (s : Stack) (value : UInt8) : Stack where
  pointer := s.pointer - 1
  slots slot := if slot = s.pointer then value else s.slots slot

/-- The byte that was pushed last. -/
def top (s : Stack) : UInt8 := s.slots (s.pointer + 1)

/-- Takes the byte that was pushed last; it stays in its slot. -/
def pull (s : Stack) : Stack where
  pointer := s.pointer + 1
  slots := s.slots

/-- The pointer is the same again, and only slots to which so many pushes go have changed. -/
structure Keeps (s : Stack) (pushes : Nat) (t : Stack) : Prop where
  pointer : t.pointer = s.pointer
  slots : ∀ slot, pushes ≤ (s.pointer - slot).toNat → t.slots slot = s.slots slot

variable {s t u : Stack} {value : UInt8} {m n : Nat}

theorem Keeps.refl (s : Stack) : s.Keeps n s := ⟨rfl, fun _ _ => rfl⟩

theorem Keeps.mono (h : s.Keeps m t) (hle : m ≤ n) : s.Keeps n t :=
  ⟨h.pointer, fun slot hslot => h.slots slot (Nat.le_trans hle hslot)⟩

theorem Keeps.trans (h : s.Keeps n t) (h' : t.Keeps n u) : s.Keeps n u := by
  refine ⟨h'.pointer.trans h.pointer, fun slot hslot => ?_⟩
  rw [h'.slots slot (by rwa [h.pointer]), h.slots slot hslot]

/-- As long as the pointer has not gone around, the byte that was pushed is pulled. -/
theorem Keeps.pull (h : (s.push value).Keeps n t) (hn : n < 256) :
    t.top = value ∧ s.Keeps (n + 1) t.pull := by
  have hpointer : t.pointer + 1 = s.pointer := by
    rw [h.pointer]
    exact UInt8.sub_add_cancel s.pointer 1
  -- seen from the pushed stack a slot is nearer by one, but for the one that was pushed into
  have hbelow (slot : UInt8) (hslot : s.pointer ≠ slot) :
      (s.pointer - 1 - slot).toNat + 1 = (s.pointer - slot).toNat := by
    have hne := mt UInt8.toNat_inj.mp hslot
    have hs := s.pointer.toNat_lt
    have hslot := slot.toNat_lt
    rw [UInt8.toNat_sub, UInt8.toNat_sub, UInt8.toNat_sub, UInt8.toNat_one]
    omega
  have hself : (s.pointer - 1 - s.pointer).toNat = 255 := by
    have hs := s.pointer.toNat_lt
    rw [UInt8.toNat_sub, UInt8.toNat_sub, UInt8.toNat_one]
    omega
  refine ⟨?_, hpointer, fun slot hslot => ?_⟩
  · rw [top, hpointer, h.slots s.pointer (by rw [push, hself]; omega)]
    exact if_pos rfl
  · have hne : s.pointer ≠ slot := by
      rintro rfl
      rw [UInt8.sub_self, UInt8.toNat_zero] at hslot
      omega
    have hbelow := hbelow slot hne
    have hkept := h.slots slot (show n ≤ (s.pointer - 1 - slot).toNat by omega)
    exact hkept.trans (if_neg hne.symm)

end Stack

/-! ## Memories whose page one is RAM -/

section Ram

open Transaction

variable {M : Type} [Memory M]

/-- The stack that a memory holds. -/
def stackAt (sp : UInt8) (memory : M) : Stack where
  pointer := sp
  slots slot := Memory.peek memory (stackAddress slot)

/-- As long as memory has a property, page one is RAM, and that does not change: what is read in
a slot is the byte that was last written there, and accesses elsewhere have no effect on page one.
Neither have accesses to page one an effect elsewhere. -/
structure StackRam (P : M → Prop) : Prop where
  read : ∀ {memory}, P memory → ∀ address, P (Memory.read memory address).2
  write : ∀ {memory}, P memory → ∀ address value, P (Memory.write memory address value)
  report : ∀ {memory}, P memory → ∀ note, P (Memory.report memory note)
  value_read : ∀ {memory}, P memory → ∀ slot,
    (Memory.read memory (stackAddress slot)).1 = Memory.peek memory (stackAddress slot)
  peek_read : ∀ {memory}, P memory → ∀ address slot,
    Memory.peek (Memory.read memory address).2 (stackAddress slot) =
      Memory.peek memory (stackAddress slot)
  peek_write : ∀ {memory}, P memory → ∀ address value slot,
    Memory.peek (Memory.write memory address value) (stackAddress slot) =
      if stackAddress slot = address then value else Memory.peek memory (stackAddress slot)
  peek_report : ∀ {memory}, P memory → ∀ note slot,
    Memory.peek (Memory.report memory note) (stackAddress slot) =
      Memory.peek memory (stackAddress slot)
  peek_read_slot : ∀ {memory}, P memory → ∀ slot address,
    Memory.peek (Memory.read memory (stackAddress slot)).2 address = Memory.peek memory address
  peek_write_slot : ∀ {memory}, P memory → ∀ slot value address, ¬ OnStack address →
    Memory.peek (Memory.write memory (stackAddress slot) value) address =
      Memory.peek memory address

/-- What may only write in a region writes there. -/
theorem mem_of_writesWithin {α : Type} {region : UInt16 → Prop} {work : Transaction α}
    (h : work.WritesWithin region) (memory : M) : ∀ write ∈ work.writes memory, region write.1 := by
  induction work generalizing memory with
  | done result => exact nofun
  | read address next ih => exact ih _ (h _) _
  | write address value next ih => exact List.forall_mem_cons.mpr ⟨h.1, ih h.2 _⟩

/-- Different slots are at different addresses. -/
theorem stackAddress_inj {slot other : UInt8} (h : stackAddress slot = stackAddress other) :
    slot = other := by
  have h := congrArg UInt16.toNat h
  rw [toNat_stackAddress, toNat_stackAddress] at h
  exact UInt8.toNat_inj.mp (Nat.add_left_cancel h)

namespace StackRam

variable {P : M → Prop} {memory : M} {sp : UInt8} {address : UInt16}

theorem stackAt_read (hram : StackRam P) (hP : P memory) (sp : UInt8) (address : UInt16) :
    stackAt sp (Memory.read memory address).2 = stackAt sp memory :=
  congrArg (Stack.mk sp) (funext fun slot => hram.peek_read hP address slot)

theorem stackAt_report (hram : StackRam P) (hP : P memory) (sp : UInt8) (note : Note) :
    stackAt sp (Memory.report memory note) = stackAt sp memory :=
  congrArg (Stack.mk sp) (funext fun slot => hram.peek_report hP note slot)

/-- A write elsewhere does not concern the stack. -/
theorem stackAt_write (hram : StackRam P) (hP : P memory) (sp : UInt8)
    (haddress : ¬ OnStack address) (value : UInt8) :
    stackAt sp (Memory.write memory address value) = stackAt sp memory := by
  refine congrArg (Stack.mk sp) (funext fun slot => ?_)
  have hne : stackAddress slot ≠ address := fun heq => haddress ⟨slot, heq.symm⟩
  exact (hram.peek_write hP address value slot).trans (if_neg hne)

/-- A write to the slot of the stack pointer is a push. -/
theorem stackAt_push (hram : StackRam P) (hP : P memory) (sp value : UInt8) :
    stackAt (sp - 1) (Memory.write memory (stackAddress sp) value) =
      (stackAt sp memory).push value := by
  refine congrArg (Stack.mk (sp - 1)) (funext fun slot => ?_)
  rw [hram.peek_write hP]
  by_cases heq : slot = sp
  · rw [heq, if_pos rfl]
    exact (if_pos rfl).symm
  · rw [if_neg (mt stackAddress_inj heq)]
    exact (if_neg heq).symm

/-- What is read above the stack pointer is the byte that was pushed last. -/
theorem value_pull (hram : StackRam P) (hP : P memory) (sp : UInt8) :
    (Memory.read memory (stackAddress (sp + 1))).1 = (stackAt sp memory).top :=
  hram.value_read hP (sp + 1)

/-- Reading it takes it from the stack. -/
theorem stackAt_pull (hram : StackRam P) (hP : P memory) (sp : UInt8) :
    stackAt (sp + 1) (Memory.read memory (stackAddress (sp + 1))).2 = (stackAt sp memory).pull :=
  hram.stackAt_read hP (sp + 1) _

/-- What writes elsewhere does not concern the stack. -/
theorem run_of_writes (hram : StackRam P) {α : Type} {work : Transaction α} (hP : P memory)
    (hwrites : ∀ write ∈ work.writes memory, ¬ OnStack write.1) (sp : UInt8) :
    P (work.run memory).2 ∧ stackAt sp (work.run memory).2 = stackAt sp memory := by
  induction work generalizing memory with
  | done result => exact ⟨hP, rfl⟩
  | read address next ih =>
    obtain ⟨hkept, hstack⟩ := ih _ (hram.read hP address) hwrites
    exact ⟨hkept, hstack.trans (hram.stackAt_read hP sp address)⟩
  | write address value next ih =>
    obtain ⟨haddress, hnext⟩ := List.forall_mem_cons.mp hwrites
    obtain ⟨hkept, hstack⟩ := ih (hram.write hP address value) hnext
    exact ⟨hkept, hstack.trans (hram.stackAt_write hP sp haddress value)⟩

end StackRam

/-- Plain storage is RAM everywhere. -/
theorem stackRam_plainMemory : StackRam fun _ : PlainMemory => True where
  read _ _ := trivial
  write _ _ _ := trivial
  report _ _ := trivial
  value_read _ _ := rfl
  peek_read _ _ _ := rfl
  peek_write {memory} _ address value slot :=
    PlainMemory.get_set memory address (stackAddress slot) value
  peek_report _ _ _ := rfl
  peek_read_slot _ _ _ := rfl
  peek_write_slot {memory} _ slot value address haddress :=
    (PlainMemory.get_set memory (stackAddress slot) address value).trans
      (if_neg fun heq => haddress ⟨slot, heq⟩)

/-- A bus that serves page one with RAM, whatever else is mapped. -/
theorem stackRam_bus : StackRam fun bus : Bus => ∀ slot, bus.RamAt (stackAddress slot) where
  read h address slot := (h slot).read address
  write h address value slot := (h slot).write address value
  report h _ := h
  value_read h slot := (h slot).read_value
  peek_read {bus} h address slot := by
    show (bus.read address).2.peek _ = bus.peek _
    rw [Bus.peek, (h slot).serving?_read, Bus.peek]
  peek_write h address value slot := (h slot).peek_write address value
  peek_report _ _ _ := rfl
  peek_read_slot {bus} h slot address := by
    show (bus.read _).2.peek address = bus.peek address
    rw [Bus.peek, (h slot).serving?_read_of_accessed, Bus.peek]
  peek_write_slot h slot value address haddress :=
    (h slot).peek_write_of_accessed value fun heq => haddress ⟨slot, heq⟩

/-! ## Nested use -/

/-- What is pushed and pulled in one go. -/
inductive Item where
  | byte (value : UInt8)
  | word (value : UInt16)
  deriving DecidableEq, Repr

namespace Item

/-- The slots that are used. -/
def size : Item → Nat
  | byte _ => 1
  | word _ => 2

def push : Item → Registers → Transaction Registers
  | byte value => Cpu.push value
  | word value => Cpu.pushWord value

/-- Pulls something of the same size. -/
def pull (item : Item) (r : Registers) : Transaction (Item × Registers) :=
  match item with
  | byte _ => do
    let (value, r) ← Cpu.pull r
    return (byte value, r)
  | word _ => do
    let (value, r) ← Cpu.pullWord r
    return (word value, r)

end Item

/-- Pushes and pulls that belong together in pairs. -/
inductive Nest where
  | done
  /-- Something that does not concern the stack, and then the rest. -/
  | meanwhile (work : Transaction Unit) (rest : Nest)
  /-- A push, what is done until the pull that belongs to it, and then the rest. -/
  | pair (item : Item) (inside rest : Nest)

namespace Nest

/-- The most slots that are used at the same time. -/
def depth : Nest → Nat
  | done => 0
  | meanwhile _ rest => rest.depth
  | pair item inside rest => max (inside.depth + item.size) rest.depth

/-- What is pushed, in the order of the pulls. -/
def pushed : Nest → List Item
  | done => []
  | meanwhile _ rest => rest.pushed
  | pair item inside rest => inside.pushed ++ item :: rest.pushed

/-- What happens in between. -/
def works : Nest → List (Transaction Unit)
  | done => []
  | meanwhile work rest => work :: rest.works
  | pair _ inside rest => inside.works ++ rest.works

/-- Carries it out, and gives back what was pulled. -/
def run : Nest → Registers → Transaction (List Item × Registers)
  | done, r => return ([], r)
  | meanwhile work rest, r => do
    work
    rest.run r
  | pair item inside rest, r => do
    let r ← item.push r
    let (earlier, r) ← inside.run r
    let (pulled, r) ← item.pull r
    let (later, r) ← rest.run r
    return (earlier ++ pulled :: later, r)

end Nest

variable {P : M → Prop} {memory : M}

/-- A push and a pull belong together: if only nested use was made of the stack in between, and it
has not gone around, what was pushed is pulled, and all registers are as they were. -/
def Matches (P : M → Prop) {α : Type} (push : Transaction Registers)
    (pull : Registers → Transaction (α × Registers)) (size : Nat) (value : α) (r : Registers)
    (memory : M) : Prop :=
  ∃ inner pushed, push.run memory = (inner, pushed) ∧ P pushed ∧
    (∀ address, ¬ OnStack address → Memory.peek pushed address = Memory.peek memory address) ∧
    ∀ left depth, P left → depth + size ≤ 256 →
      (stackAt inner.sp pushed).Keeps depth (stackAt inner.sp left) →
      ∃ last, (pull inner).run left = ((value, r), last) ∧ P last ∧
        (∀ address, Memory.peek last address = Memory.peek left address) ∧
        (stackAt r.sp memory).Keeps (depth + size) (stackAt r.sp last)

theorem matches_push_pull (hram : StackRam P) (hP : P memory) (value : UInt8) (r : Registers) :
    Matches P (push value r) pull 1 value r memory := by
  refine ⟨{ r with sp := r.sp - 1 }, Memory.write memory (stackAddress r.sp) value, rfl,
    hram.write hP _ _, hram.peek_write_slot hP _ _, ?_⟩
  intro left depth hleft hdepth hkeeps
  rw [hram.stackAt_push hP r.sp value] at hkeeps
  obtain ⟨htop, hkept⟩ := hkeeps.pull hdepth
  have hsp : r.sp - 1 + 1 = r.sp := UInt8.sub_add_cancel r.sp 1
  rw [← hram.value_pull hleft] at htop
  rw [← hram.stackAt_pull hleft] at hkept
  refine ⟨(Memory.read left (stackAddress (r.sp - 1 + 1))).2, ?_, hram.read hleft _,
    hram.peek_read_slot hleft _, ?_⟩
  · show (((Memory.read left (stackAddress (r.sp - 1 + 1))).1,
      { r with sp := r.sp - 1 + 1 }), _) = _
    rw [htop, hsp]
    rfl
  · rwa [hsp] at hkept ⊢

/-- A word is what its two bytes make up. -/
theorem word_bytes (value : UInt16) : word value.toUInt8 (value >>> 8).toUInt8 = value := by
  have hvalue := value.toNat_lt
  have hhigh : (value >>> 8).toNat = value.toNat / 256 := by
    rw [UInt16.toNat_shiftRight, Nat.shiftRight_eq_div_pow]
    rfl
  apply UInt16.toNat_inj.mp
  rw [toNat_word, UInt16.toNat_toUInt8, UInt16.toNat_toUInt8, hhigh]
  omega

theorem matches_pushWord_pullWord (hram : StackRam P) (hP : P memory) (value : UInt16)
    (r : Registers) : Matches P (pushWord value r) pullWord 2 value r memory := by
  obtain ⟨first, pushed, hfirst, hpushed, helsewhere, hpull⟩ :=
    matches_push_pull hram hP (value >>> 8).toUInt8 r
  obtain ⟨second, pushed', hsecond, hpushed', helsewhere', hpull'⟩ :=
    matches_push_pull hram hpushed value.toUInt8 first
  refine ⟨second, pushed', ?_, hpushed', fun address haddress =>
    (helsewhere' address haddress).trans (helsewhere address haddress), ?_⟩
  · rw [pushWord, run_bind, hfirst, hsecond]
  · intro left depth hleft hdepth hkeeps
    obtain ⟨last, hlow, hlast, hsame, hkept⟩ := hpull' left depth hleft (by omega) hkeeps
    obtain ⟨last', hhigh, hlast', hsame', hkept'⟩ := hpull last (depth + 1) hlast hdepth hkept
    refine ⟨last', ?_, hlast', fun address => (hsame' address).trans (hsame address), hkept'⟩
    rw [pullWord, run_bind, hlow]
    show Transaction.run (_ >>= _) last = _
    rw [run_bind, hhigh]
    show ((word value.toUInt8 (value >>> 8).toUInt8, r), last') = _
    rw [word_bytes]

/-- What is pulled may be given another form. -/
theorem Matches.map {α β : Type} {push : Transaction Registers}
    {pull : Registers → Transaction (α × Registers)} {size : Nat} {value : α} {r : Registers}
    (h : Matches P push pull size value r memory) (f : α → β) :
    Matches P push (fun r => pull r >>= fun pulled => pure (f pulled.1, pulled.2)) size (f value) r
      memory := by
  obtain ⟨inner, pushed, hpush, hpushed, helsewhere, hpull⟩ := h
  refine ⟨inner, pushed, hpush, hpushed, helsewhere, fun left depth hleft hdepth hkeeps => ?_⟩
  obtain ⟨last, hrun, hrest⟩ := hpull left depth hleft hdepth hkeeps
  refine ⟨last, ?_, hrest⟩
  rw [run_bind, hrun]
  rfl

theorem matches_item (hram : StackRam P) (hP : P memory) (item : Item) (r : Registers) :
    Matches P (item.push r) item.pull item.size item r memory := by
  cases item with
  | byte value => exact (matches_push_pull hram hP value r).map Item.byte
  | word value => exact (matches_pushWord_pullWord hram hP value r).map Item.word

/-- Nested use of the stack that never needs more than page one: every pull returns what was
pushed, the registers and among them the stack pointer are as they were, and so are the bytes
elsewhere and those in slots that were not needed. -/
theorem run_nest (hram : StackRam P) {nest : Nest} (hdepth : nest.depth ≤ 256)
    (hworks : ∀ work ∈ nest.works, work.WritesWithin (¬ OnStack ·)) (r : Registers) {memory : M}
    (hP : P memory) :
    ∃ left, (nest.run r).run memory = ((nest.pushed, r), left) ∧ P left ∧
      (stackAt r.sp memory).Keeps nest.depth (stackAt r.sp left) ∧
      ∀ address, ¬ OnStack address →
        (∀ work ∈ nest.works, ∀ memory, P memory →
          Memory.peek (work.run memory).2 address = Memory.peek memory address) →
        Memory.peek left address = Memory.peek memory address := by
  induction nest generalizing r memory with
  | done => exact ⟨memory, rfl, hP, .refl _, fun _ _ _ => rfl⟩
  | meanwhile work rest ih =>
    obtain ⟨hwork, hworks⟩ := List.forall_mem_cons.mp hworks
    obtain ⟨hkept, hstack⟩ := hram.run_of_writes hP (mem_of_writesWithin hwork memory) r.sp
    obtain ⟨left, hrun, hleft, hkeeps, helsewhere⟩ := ih hdepth hworks r hkept
    refine ⟨left, ?_, hleft, hstack ▸ hkeeps, fun address haddress hsame => ?_⟩
    · rw [Nest.run, run_bind, hrun]
      rfl
    · obtain ⟨hfirst, hsame⟩ := List.forall_mem_cons.mp hsame
      exact (helsewhere address haddress hsame).trans (hfirst memory hP)
  | pair item inside rest ihInside ihRest =>
    obtain ⟨hinsideDepth, hrestDepth⟩ := Nat.max_le.mp hdepth
    obtain ⟨hinsideWorks, hrestWorks⟩ := List.forall_mem_append.mp hworks
    -- push, inside, pull, rest: each goes on from the memory that the one before it has left
    obtain ⟨inner, pushed, hpush, hpushed, hpushElsewhere, hpull⟩ := matches_item hram hP item r
    obtain ⟨left, hinside, hleft, hkeeps, hinsideElsewhere⟩ :=
      ihInside (Nat.le_trans (Nat.le_add_right _ _) hinsideDepth) hinsideWorks inner hpushed
    obtain ⟨last, hrun, hlast, hsame, hkept⟩ := hpull left inside.depth hleft hinsideDepth hkeeps
    obtain ⟨final, hrest, hfinal, hrestKeeps, hrestElsewhere⟩ :=
      ihRest hrestDepth hrestWorks r hlast
    refine ⟨final, ?_, hfinal, (hkept.mono (Nat.le_max_left _ _)).trans
      (hrestKeeps.mono (Nat.le_max_right _ _)), fun address haddress hworks => ?_⟩
    · simp only [Nest.run, run_bind, hpush, hinside, hrun, hrest]
      rfl
    · obtain ⟨hinsideSame, hrestSame⟩ := List.forall_mem_append.mp hworks
      rw [hrestElsewhere address haddress hrestSame, hsame,
        hinsideElsewhere address haddress hinsideSame, hpushElsewhere address haddress]

end Ram

end AppleOne.Cpu
