import AppleOne.Json.Reader
import AppleOne.Proofs.Cpu.Accesses
import AppleOne.Proofs.Cpu.Frame
import AppleOne.Proofs.Cpu.Stack
import Mathlib.Data.List.Nodup

/-!
# What a line of assembler text says

Decoding is done twice: in words, to carry an instruction out, and in characters, to show it. Here
the characters are read back. A line tells which opcode there is, by its mnemonic and by what
stands around the digits, and which bytes follow it, by the digits. So different instructions are
shown differently, except that the bytes of a branch can be told from its target only where one
knows its address.

The digits also tell what the instruction will do. They are the target of a branch, a jump or a
call. For the other instructions that work on memory, they are the number from which the rule of
the mode leads to the effective address.

## Main definitions

* `Listing.read`: a line of assembler text, taken apart.
* `AddressingMode.leads`: the rule of a mode, in numbers.
* `Cpu.touched`: the addresses that a step comes to after reading the instruction and its pointer.
* `Memory.encoding`: the bytes of the instruction at an address.
* `Cpu.Foretold`: what a line says about a step.

## Main results

* `Listing.read_disassemble`: what is read from the line of an instruction.
* `toNat_locate`, `touched_step`: the effective address, and that it is the one used.
* `foretold_disassemble`: the line of the next instruction agrees with the step.
* `encoding_eq_of_disassemble`: the bytes of an instruction can be told from its line.
* `disassembly_faithful`: both together.
-/

namespace AppleOne

open Cpu Text

/-! ## Digits -/

/-- Whether a character is a base-sixteen digit. -/
def isHexDigit (c : Char) : Bool := (Json.Scanner.hexDigit? c).isSome

/-- The number that digits stand for. -/
def numberOf (digits : List Char) : Nat :=
  digits.foldl (fun number c => 16 * number + (Json.Scanner.hexDigit? c).getD 0) 0

theorem hexDigit?_hexDigit : ∀ n < 16, Json.Scanner.hexDigit? (hexDigit n) = some n := by
  decide

section Digits

variable (b : UInt8) (w : UInt16)

theorem hexDigit?_halves :
    Json.Scanner.hexDigit? (hexDigit (b.toNat / 16)) = some (b.toNat / 16) ∧
      Json.Scanner.hexDigit? (hexDigit (b.toNat % 16)) = some (b.toNat % 16) := by
  have hlt := b.toNat_lt
  exact ⟨hexDigit?_hexDigit _ (by omega), hexDigit?_hexDigit _ (by omega)⟩

theorem isHexDigit_hexByteDigits : ∀ c ∈ hexByteDigits b, isHexDigit c = true := by
  obtain ⟨hhigh, hlow⟩ := hexDigit?_halves b
  simp [hexByteDigits, isHexDigit, hhigh, hlow]

theorem isHexDigit_hexWordDigits : ∀ c ∈ hexWordDigits w, isHexDigit c = true := by
  intro c hc
  rcases List.mem_append.mp hc with hc | hc
  · exact isHexDigit_hexByteDigits _ c hc
  · exact isHexDigit_hexByteDigits _ c hc

theorem numberOf_hexByteDigits : numberOf (hexByteDigits b) = b.toNat := by
  obtain ⟨hhigh, hlow⟩ := hexDigit?_halves b
  simp only [numberOf, hexByteDigits, List.foldl_cons, List.foldl_nil, hhigh, hlow,
    Option.getD_some]
  omega

theorem numberOf_hexWordDigits : numberOf (hexWordDigits w) = w.toNat := by
  obtain ⟨hhigh, hlow⟩ := hexDigit?_halves (w >>> 8).toUInt8
  obtain ⟨hhigh', hlow'⟩ := hexDigit?_halves w.toUInt8
  have hword := toNat_word w.toUInt8 (w >>> 8).toUInt8
  rw [word_bytes] at hword
  simp only [numberOf, hexWordDigits, hexByteDigits, List.cons_append, List.nil_append,
    List.foldl_cons, List.foldl_nil, hhigh, hlow, hhigh', hlow', Option.getD_some]
  omega

end Digits

/-! ## Operands -/

namespace Cpu.AddressingMode

/-- What an operand shows in front of its number. -/
def opening : AddressingMode → List Char
  | accumulator => ['A']
  | immediate => ['#']
  | indirect | indirectX | indirectY => ['(']
  | _ => []

/-- What an operand shows after its number. -/
def closing : AddressingMode → List Char
  | zeroPageX | absoluteX => [',', 'X']
  | zeroPageY | absoluteY => [',', 'Y']
  | indirect => [')']
  | indirectX => [',', 'X', ')']
  | indirectY => [')', ',', 'Y']
  | _ => []

/-- The digits of an operand. -/
def digits (mode : AddressingMode) (pc : UInt16) (low high : UInt8) : List Char :=
  match mode with
  | implied | accumulator => []
  | relative => hexWordDigits (branchTarget pc low)
  | absolute | absoluteX | absoluteY | indirect => hexWordDigits (word low high)
  | _ => hexByteDigits low

/-- The number of digits of an operand. -/
def width : AddressingMode → Nat
  | implied | accumulator => 0
  | relative | absolute | absoluteX | absoluteY | indirect => 4
  | _ => 2

variable (mode : AddressingMode) (pc : UInt16) (low high : UInt8)

theorem toList_operandText :
    (mode.operandText pc low high).toList =
      mode.opening ++ if mode.width = 0 then []
        else '$' :: (mode.digits pc low high ++ mode.closing) := by
  cases mode <;> simp [operandText, opening, closing, digits, width, hexByte, hexWord]

theorem length_digits : (mode.digits pc low high).length = mode.width := by
  cases mode <;> rfl

theorem isHexDigit_digits : ∀ c ∈ mode.digits pc low high, isHexDigit c = true := by
  cases mode with
  | implied | accumulator => nofun
  | relative | absolute | absoluteX | absoluteY | indirect => exact isHexDigit_hexWordDigits _
  | _ => exact isHexDigit_hexByteDigits _

end Cpu.AddressingMode

/-! ## Lines -/

/-- A line of assembler text, taken apart at the digits of its operand. -/
@[ext] structure Listing where
  mnemonic : List Char
  opening : List Char
  digits : List Char
  closing : List Char
  deriving DecidableEq, Repr

namespace Listing

/-- The digits of an operand follow a dollar sign. -/
def ofOperand (mnemonic operand : List Char) : Listing where
  mnemonic := mnemonic
  opening := operand.takeWhile (· != '$')
  digits := ((operand.dropWhile (· != '$')).drop 1).takeWhile isHexDigit
  closing := ((operand.dropWhile (· != '$')).drop 1).dropWhile isHexDigit

/-- Three characters are the mnemonic. If there is an operand, it follows after a blank. -/
def read (text : String) : Listing :=
  ofOperand (text.toList.take 3) (text.toList.drop 4)

/-- The number in the operand. -/
def number (listing : Listing) : Nat := numberOf listing.digits

/-- The parts of an operand are read as they have been written. -/
theorem ofOperand_operandText (mnemonic : List Char) (mode : AddressingMode) (pc : UInt16)
    (low high : UInt8) :
    ofOperand mnemonic (mode.operandText pc low high).toList =
      ⟨mnemonic, mode.opening, mode.digits pc low high, mode.closing⟩ := by
  -- no dollar sign stands before that of the number, and no digit right after the number
  have hopening : ∀ c ∈ mode.opening, (c != '$') = true := by
    cases mode <;> simp [AddressingMode.opening]
  have hdigits := mode.isHexDigit_digits pc low high
  have hclosing : mode.closing.takeWhile isHexDigit = [] ∧
      mode.closing.dropWhile isHexDigit = mode.closing := by cases mode <;> decide
  unfold ofOperand
  rw [AddressingMode.toList_operandText, List.takeWhile_append_of_pos hopening,
    List.dropWhile_append_of_pos hopening]
  split
  · next hwidth =>
    have hplain : mode.digits pc low high = [] ∧ mode.closing = [] := by
      cases mode <;> first | exact ⟨rfl, rfl⟩ | cases hwidth
    simp [hplain]
  · simp [List.takeWhile_append_of_pos hdigits, List.dropWhile_append_of_pos hdigits, hclosing]

end Listing

theorem length_mnemonic (operation : Operation) : operation.mnemonic.toList.length = 3 := by
  cases operation <;> rfl

section Read

variable {M : Type} [Memory M] (memory : M) (address : UInt16)

/-- A line is the mnemonic and, after a blank, the operand. -/
theorem toList_disassemble :
    (Memory.disassemble memory address).1.toList =
      let instruction := Instruction.decode (Memory.peek memory address)
      let operand := (instruction.mode.operandText address (Memory.peek memory (address + 1))
        (Memory.peek memory (address + 2))).toList
      instruction.mnemonic.toList ++ if operand = [] then [] else ' ' :: operand := by
  simp only [Memory.disassemble]
  generalize AddressingMode.operandText _ _ _ _ = operand
  by_cases hempty : operand = ""
  · simp [hempty]
  · simp [hempty]

/-- The parts of a line are read as they have been written. -/
theorem Listing.read_disassemble :
    let instruction := Instruction.decode (Memory.peek memory address)
    Listing.read (Memory.disassemble memory address).1 =
      { mnemonic := instruction.mnemonic.toList
        opening := instruction.mode.opening
        digits := instruction.mode.digits address (Memory.peek memory (address + 1))
          (Memory.peek memory (address + 2))
        closing := instruction.mode.closing } := by
  intro instruction
  have hlength : instruction.mnemonic.toList.length = 3 := length_mnemonic _
  -- a line without an operand ends with the mnemonic, before the blank that would be dropped
  have hoperand (operand : List Char) :
      (instruction.mnemonic.toList ++ if operand = [] then [] else ' ' :: operand).drop 4 =
        operand := by
    rw [List.drop_append, hlength, List.drop_of_length_le (by omega)]
    split
    · next hempty => simp [hempty]
    · rfl
  rw [← ofOperand_operandText, read, toList_disassemble, List.take_left' hlength]
  exact congrArg _ (hoperand _)

theorem number_disassemble :
    (Listing.read (Memory.disassemble memory address).1).number =
      numberOf ((Instruction.decode (Memory.peek memory address)).mode.digits address
        (Memory.peek memory (address + 1)) (Memory.peek memory (address + 2))) :=
  congrArg Listing.number (Listing.read_disassemble memory address)

end Read

/-! ## Effective addresses -/

/-- The word at an address, if its second byte is taken from the same page. -/
def PlainMemory.wordInPage (memory : PlainMemory) (address : Nat) : Nat :=
  let byte (n : Nat) : Nat := (memory.get n.toUInt16).toNat
  byte address + 256 * byte (address / 256 * 256 + (address + 1) % 256)

/-- Where a mode leads from the number that its operand shows. -/
def Cpu.AddressingMode.leads (mode : AddressingMode) (r : Registers) (memory : PlainMemory)
    (operand : Nat) : Nat :=
  match mode with
  | zeroPageX => (operand + r.x.toNat) % 256
  | zeroPageY => (operand + r.y.toNat) % 256
  | absoluteX => (operand + r.x.toNat) % 65536
  | absoluteY => (operand + r.y.toNat) % 65536
  | indirect => memory.wordInPage operand
  | indirectX => memory.wordInPage ((operand + r.x.toNat) % 256)
  | indirectY => (memory.wordInPage operand + r.y.toNat) % 65536
  | _ => operand

theorem toNat_nextInPage (address : UInt16) :
    (nextInPage address).toNat = address.toNat / 256 * 256 + (address.toNat + 1) % 256 := by
  have hlow := address.toUInt8.toNat_lt
  rw [← word_bytes address, nextInPage_word, toNat_word, toNat_word, UInt8.toNat_add,
    UInt8.toNat_one]
  omega

section Locate

variable (r : Registers) (memory : PlainMemory)

theorem toNat_fetchWordInPage (address : UInt16) :
    ((fetchWordInPage address).run memory).1.toNat = memory.wordInPage address.toNat := by
  show (word (memory.get address) (memory.get (nextInPage address))).toNat = _
  simp only [toNat_word, PlainMemory.wordInPage, ← toNat_nextInPage, UInt16.ofNat_toNat,
    Nat.toUInt16]
  omega

/-- The effective address is the one to which the rule of the mode leads. -/
theorem toNat_locate {mode : AddressingMode} (h : mode.inMemory = true) :
    ((locate r mode).run memory).1.address.toNat =
      mode.leads r memory
        (numberOf (mode.digits r.pc (memory.get (r.pc + 1)) (memory.get (r.pc + 2)))) := by
  have hsecond : r.pc + 2 = r.pc + 1 + 1 := (UInt16.add_assoc r.pc 1 1).symm
  rw [hsecond]
  -- the digits give the operand back; what is added to it wraps as the mode lets it
  cases mode with
  | implied | accumulator | immediate | relative => cases h
  | zeroPage =>
    simp only [AddressingMode.leads, AddressingMode.digits, numberOf_hexByteDigits]
    exact UInt8.toNat_toUInt16 _
  | zeroPageX | zeroPageY =>
    simp only [AddressingMode.leads, AddressingMode.digits, numberOf_hexByteDigits]
    exact (UInt8.toNat_toUInt16 _).trans (UInt8.toNat_add _ _)
  | absolute =>
    simp only [AddressingMode.leads, AddressingMode.digits, numberOf_hexWordDigits]
    rfl
  | absoluteX | absoluteY =>
    simp only [AddressingMode.leads, AddressingMode.digits, numberOf_hexWordDigits]
    exact (UInt16.toNat_add _ _).trans (by rw [UInt8.toNat_toUInt16])
  | indirect =>
    simp only [AddressingMode.leads, AddressingMode.digits, numberOf_hexWordDigits]
    exact toNat_fetchWordInPage memory _
  | indirectX =>
    simp only [AddressingMode.leads, AddressingMode.digits, numberOf_hexByteDigits]
    refine (toNat_fetchWordInPage memory _).trans ?_
    rw [UInt8.toNat_toUInt16, UInt8.toNat_add]
  | indirectY =>
    simp only [AddressingMode.leads, AddressingMode.digits, numberOf_hexByteDigits]
    refine (UInt16.toNat_add _ _).trans ?_
    rw [UInt8.toNat_toUInt16, ← UInt8.toNat_toUInt16 (memory.get _), ← toNat_fetchWordInPage]
    rfl

end Locate

/-! ## What is done at an effective address -/

/-- The address of an access. -/
def Access.address : Access → UInt16
  | read address _ => address
  | write address _ => address

namespace Cpu

/-- The number of bytes of a pointer. -/
def AddressingMode.pointerSize : AddressingMode → Nat
  | indirect | indirectX | indirectY => 2
  | _ => 0

section Accesses

open Transaction

variable {M σ : Type} [Memory M] {instruction : Instruction} (r : Registers) (memory : M)

theorem length_accesses_locate {mode : AddressingMode} (h : mode.inMemory = true) :
    ((locate r mode).accesses memory).length = mode.operandSize + mode.pointerSize := by
  cases mode with
  | implied | accumulator | immediate | relative => cases h
  | _ => rfl

/-- After the instruction and its pointer nothing but the effective address is accessed, and it is,
if the instruction is no jump. -/
theorem accesses_located (hfits : instruction.Fits) (hmemory : instruction.mode.inMemory = true)
    (hcall : instruction.operation ≠ .jsr) :
    ∃ used : List Access,
      (executeInstruction instruction r).accesses memory =
        (locate r instruction.mode).accesses memory ++ used ∧
      (∀ access ∈ used, access.address = instruction.location r memory) ∧
      (used = [] ↔ instruction.operation = .jmp) := by
  unfold Instruction.Fits at hfits
  cases hop : instruction.operation with
  | adc | and | bit | cmp | cpx | cpy | eor | ora | sbc | lda | ldx | ldy =>
    have hload := accesses_load_located r memory (congrArg Operation.effect hop) hmemory
    exact ⟨_, hload, by simp [Access.address], by simp⟩
  | sta | stx | sty =>
    have hstore := accesses_store_located r memory (congrArg Operation.effect hop)
    exact ⟨_, hstore, by simp [Access.address], by simp⟩
  | asl | lsr | rol | ror | inc | dec =>
    have hmodify := accesses_modify_located r memory (congrArg Operation.effect hop) hmemory
    exact ⟨_, hmodify, by simp [Access.address], by simp⟩
  | jmp =>
    have hjump := accesses_jump_located r memory (congrArg Operation.effect hop)
    exact ⟨[], hjump.trans (List.append_nil _).symm, nofun, by simp⟩
  | jsr => exact absurd hop hcall
  | _ =>
    -- no other operation goes with a mode whose operand lies in memory
    rw [hop] at hfits
    rw [hfits] at hmemory
    cases hmemory

end Accesses

/-- The addresses that a step comes to when it has read the instruction and its pointer. -/
def touched {M σ : Type} [Memory M] (cpu : Cpu M σ) : List Nat :=
  let accesses := cpu.traced.step.2.memory.takeAccesses.1
  (accesses.drop (cpu.current.size + cpu.current.mode.pointerSize)).map (·.address.toNat)

section Step

variable {M σ : Type} [Memory M] {cpu : Cpu M σ}

/-- A step that enters no handler reads an opcode and makes the accesses of its instruction. -/
theorem takeAccesses_step_of_not_due (hdue : cpu.registers.due? = none)
    (hran : cpu.step.1.wasRefused = false) :
    cpu.traced.step.2.memory.takeAccesses.1 =
      .read cpu.registers.pc (Memory.read cpu.memory cpu.registers.pc).1 ::
        (executeInstruction cpu.current cpu.registers).accesses cpu.fetched := by
  rw [takeAccesses_step_traced]
  cases houtcome : cpu.step.1 with
  | refused pc =>
    rw [houtcome] at hran
    cases hran
  | ran cycles =>
    simp only
    rw [step_of_not_due hdue]
    refine congrArg (List.cons _) ((Transaction.accesses_bind _ _ cpu.fetched).trans ?_)
    exact List.append_nil _

/-- Such a step comes to the effective address and to no other, and it does so unless it jumps
there. -/
theorem touched_step (hdue : cpu.registers.due? = none) (hran : cpu.step.1.wasRefused = false)
    (hmemory : cpu.current.mode.inMemory = true) (hcall : cpu.current.operation ≠ .jsr) :
    (∀ address ∈ cpu.touched, address = cpu.effectiveAddress.toNat) ∧
      (cpu.touched = [] ↔ cpu.current.operation = .jmp) := by
  have hfits : cpu.current.Fits := fits_decode _
  obtain ⟨used, hused, haddress, hempty⟩ :=
    accesses_located cpu.registers cpu.fetched hfits hmemory hcall
  have hlength := length_accesses_locate cpu.registers cpu.fetched hmemory
  -- what is dropped is the opcode and what was read on the way to the operand
  have htouched : cpu.touched = used.map (·.address.toNat) := by
    simp only [touched, takeAccesses_step_of_not_due hdue hran, hused, ← List.cons_append]
    rw [List.drop_left']
    rw [List.length_cons, hlength, Instruction.size]
    omega
  rw [htouched]
  refine ⟨fun address hmem => ?_, List.map_eq_nil_iff.trans hempty⟩
  obtain ⟨access, haccess, rfl⟩ := List.mem_map.mp hmem
  exact congrArg UInt16.toNat (haddress access haccess)

end Step

/-! ## What a line says about a step -/

section Foretold

variable {σ : Type} {cpu : Cpu PlainMemory σ}

/-- A line with a length agrees with a step. The length leads to the next instruction, unless the
operation is there to go elsewhere. The number is where a branch that is taken leads, a jump to a
full address and a call. From the number the rule of the mode leads to the address that is
accessed, or jumped to, if the operand lies in memory. -/
structure Foretold (cpu : Cpu PlainMemory σ) (line : String × Nat) : Prop where
  next : cpu.current.operation ∉ Operation.movers →
    cpu.step.2.registers.pc.toNat = (cpu.registers.pc.toNat + line.2) % 65536
  branch : cpu.current.operation.takes cpu.registers.flags = true →
    cpu.step.2.registers.pc.toNat = (Listing.read line.1).number
  jump : cpu.current.operation = .jmp ∧ cpu.current.mode = .absolute ∨
      cpu.current.operation = .jsr →
    cpu.step.2.registers.pc.toNat = (Listing.read line.1).number
  effective : cpu.current.mode.inMemory = true → cpu.current.operation ≠ .jsr →
    let address := cpu.current.mode.leads cpu.registers cpu.memory (Listing.read line.1).number
    if cpu.current.operation = .jmp then
      cpu.touched = [] ∧ cpu.step.2.registers.pc.toNat = address
    else cpu.touched ≠ [] ∧ ∀ touched ∈ cpu.touched, touched = address

variable (cpu) in
theorem number_current :
    (Listing.read (Memory.disassemble cpu.memory cpu.registers.pc).1).number =
      numberOf (cpu.current.mode.digits cpu.registers.pc (cpu.memory.get (cpu.registers.pc + 1))
        (cpu.memory.get (cpu.registers.pc + 2))) :=
  number_disassemble cpu.memory cpu.registers.pc

/-- The line shows a number from which the rule of the mode leads to the effective address. -/
theorem toNat_effectiveAddress (hmemory : cpu.current.mode.inMemory = true) :
    cpu.effectiveAddress.toNat =
      cpu.current.mode.leads cpu.registers cpu.memory
        (Listing.read (Memory.disassemble cpu.memory cpu.registers.pc).1).number := by
  rw [number_current]
  exact toNat_locate cpu.registers cpu.memory hmemory

theorem pc_step_of_jump (hdue : cpu.registers.due? = none) (hran : cpu.step.1.wasRefused = false)
    (hop : cpu.current.operation = .jmp) :
    cpu.step.2.registers.pc = cpu.effectiveAddress := by
  have houtcome := outcome_jump cpu.registers cpu.fetched (congrArg Operation.effect hop)
  rw [outcome_current hdue hran] at houtcome
  exact congrArg (·.1.pc) houtcome

theorem pc_step_of_call (hdue : cpu.registers.due? = none) (hran : cpu.step.1.wasRefused = false)
    (hop : cpu.current.operation = .jsr) :
    cpu.step.2.registers.pc =
      word (cpu.memory.get (cpu.registers.pc + 1)) (cpu.memory.get (cpu.registers.pc + 2)) := by
  have hsecond : cpu.registers.pc + 2 = cpu.registers.pc + 1 + 1 :=
    (UInt16.add_assoc _ 1 1).symm
  have heffect : cpu.current.operation.effect = .call := congrArg Operation.effect hop
  have houtcome := outcome_current hdue hran
  simp only [Instruction.outcome, executeInstruction, heffect] at houtcome
  rw [hsecond]
  exact (congrArg (·.1.pc) houtcome).symm

/-- Branches show their target. -/
theorem mode_of_branch (opcode : UInt8) :
    (Instruction.decode opcode).operation ∈ Operation.branches →
      (Instruction.decode opcode).mode = .relative := by
  have hmatrix : ∀ row ∈ Instruction.matrix, ∀ instruction ∈ row,
      instruction.operation ∈ Operation.branches → instruction.mode = .relative := by decide
  exact forall_decode hmatrix opcode

/-- The line of the next instruction agrees with a step that enters no handler. -/
theorem foretold_disassemble (hdue : cpu.registers.due? = none)
    (hran : cpu.step.1.wasRefused = false) :
    cpu.Foretold (Memory.disassemble cpu.memory cpu.registers.pc) where
  next hmovers := by
    have hpc := pc_outcome cpu.registers cpu.fetched hmovers
    rw [outcome_current hdue hran] at hpc
    rw [hpc, UInt16.toNat_add, toNat_size]
    rfl
  branch htakes := by
    have hbranch := branches_of_takes htakes
    have hpc := pc_outcome_of_branch cpu.registers cpu.fetched hbranch
    rw [outcome_current hdue hran, if_pos htakes] at hpc
    have hmode : cpu.current.mode = .relative := mode_of_branch _ hbranch
    rw [hpc, number_current, hmode, AddressingMode.digits, numberOf_hexWordDigits]
    rfl
  jump := by
    rintro (⟨hop, hmode⟩ | hop)
    · have hmemory : cpu.current.mode.inMemory = true := by rw [hmode]; rfl
      rw [pc_step_of_jump hdue hran hop, toNat_effectiveAddress hmemory, hmode]
      rfl
    · -- a call has one mode, in which its operand is the target
      have hmode : cpu.current.mode = .absolute := by
        have hfits : cpu.current.Fits := fits_decode _
        rw [Instruction.Fits, hop] at hfits
        exact hfits
      rw [pc_step_of_call hdue hran hop, number_current, hmode, AddressingMode.digits,
        numberOf_hexWordDigits]
  effective hmemory hcall := by
    obtain ⟨haddress, hempty⟩ := touched_step hdue hran hmemory hcall
    rw [toNat_effectiveAddress hmemory] at haddress
    split
    · next hop =>
      refine ⟨hempty.mpr hop, ?_⟩
      rw [pc_step_of_jump hdue hran hop, toNat_effectiveAddress hmemory]
    · next hop => exact ⟨fun h => hop (hempty.mp h), haddress⟩

end Foretold

end Cpu

/-! ## What a line says about the instruction -/

/-- The bytes of the instruction at an address, the opcode first. -/
def Memory.encoding {M : Type} [Memory M] (memory : M) (address : UInt16) : List UInt8 :=
  let opcode := Memory.peek memory address
  opcode :: [Memory.peek memory (address + 1), Memory.peek memory (address + 2)].take
    (Instruction.decode opcode).mode.operandSize

/-- What the line of an instruction shows besides digits, and how many digits there are. -/
def Cpu.Instruction.shape (instruction : Instruction) : String × List Char × List Char × Nat :=
  (instruction.mnemonic, instruction.mode.opening, instruction.mode.closing,
    instruction.mode.width)

/-- No two documented instructions have the same shape. -/
theorem nodup_shape :
    (((Instruction.matrix.toList.flatMap (·.toList)).filter (·.documented)).map
      Instruction.shape).Nodup := by
  decide +kernel

theorem map_decode_range :
    (List.range 256).map (fun n => Instruction.decode n.toUInt8) =
      Instruction.matrix.toList.flatMap (·.toList) := by
  decide +kernel

/-- The shape of a documented instruction tells its opcode. -/
theorem opcode_eq_of_shape {opcode other : UInt8}
    (hopcode : (Instruction.decode opcode).documented = true)
    (hother : (Instruction.decode other).documented = true)
    (h : (Instruction.decode opcode).shape = (Instruction.decode other).shape) :
    opcode = other := by
  have hnodup := nodup_shape
  -- the entries of the matrix are what the opcodes stand for, in order
  rw [← map_decode_range, List.filter_map, List.map_map] at hnodup
  have hmem (b : UInt8) (hb : (Instruction.decode b).documented = true) :
      b.toNat ∈ (List.range 256).filter
        ((·.documented) ∘ fun n => Instruction.decode n.toUInt8) :=
    List.mem_filter.mpr ⟨List.mem_range.mpr b.toNat_lt, by simpa using hb⟩
  refine UInt8.toNat_inj.mp (List.inj_on_of_nodup_map hnodup (hmem _ hopcode) (hmem _ hother) ?_)
  simpa using h

theorem toUInt8_signExtend (offset : UInt8) : (signExtend offset).toUInt8 = offset := by
  unfold signExtend
  split
  · exact UInt8.toUInt8_toUInt16 offset
  · rw [UInt16.toUInt8_or, UInt8.toUInt8_toUInt16]
    exact UInt8.or_zero

/-- Different distances lead to different targets. -/
theorem branchTarget_injective (pc : UInt16) : Function.Injective (branchTarget pc) := by
  intro offset other h
  have hextended := (UInt16.add_right_inj (pc + 2)).mp h
  rw [← toUInt8_signExtend offset, hextended, toUInt8_signExtend]

theorem hexByteDigits_injective : Function.Injective hexByteDigits := by
  intro b other h
  have hnumber := congrArg numberOf h
  rw [numberOf_hexByteDigits, numberOf_hexByteDigits] at hnumber
  exact UInt8.toNat_inj.mp hnumber

theorem hexWordDigits_injective : Function.Injective hexWordDigits := by
  intro w other h
  have hnumber := congrArg numberOf h
  rw [numberOf_hexWordDigits, numberOf_hexWordDigits] at hnumber
  exact UInt16.toNat_inj.mp hnumber

theorem word_injective {low high low' high' : UInt8} (h : word low high = word low' high') :
    low = low' ∧ high = high' := by
  have hnumber := congrArg UInt16.toNat h
  rw [toNat_word, toNat_word] at hnumber
  have hlow := low.toNat_lt
  have hlow' := low'.toNat_lt
  exact ⟨UInt8.toNat_inj.mp (by omega), UInt8.toNat_inj.mp (by omega)⟩

/-- The digits of an operand tell its bytes. -/
theorem operand_eq_of_digits {mode : AddressingMode} {pc : UInt16} {low high low' high' : UInt8}
    (h : mode.digits pc low high = mode.digits pc low' high') :
    [low, high].take mode.operandSize = [low', high'].take mode.operandSize := by
  cases mode with
  | implied | accumulator => rfl
  | relative =>
    -- the target tells the distance, since both branches are at the same address
    have hlow := branchTarget_injective pc (hexWordDigits_injective h)
    rw [hlow]
    rfl
  | absolute | absoluteX | absoluteY | indirect =>
    obtain ⟨hlow, hhigh⟩ := word_injective (hexWordDigits_injective h)
    rw [hlow, hhigh]
  | _ =>
    have hlow := hexByteDigits_injective h
    rw [hlow]
    rfl

/-- An operand shows no more than its bytes. -/
theorem operandText_congr {mode : AddressingMode} {pc : UInt16} {low high low' high' : UInt8}
    (h : [low, high].take mode.operandSize = [low', high'].take mode.operandSize) :
    mode.operandText pc low high = mode.operandText pc low' high' := by
  cases mode with
  | implied | accumulator => rfl
  | absolute | absoluteX | absoluteY | indirect =>
    obtain ⟨hlow, hhigh⟩ := List.cons.inj h
    rw [hlow, (List.cons.inj hhigh).1]
  | _ =>
    obtain ⟨hlow, -⟩ := List.cons.inj h
    simp only [AddressingMode.operandText, hlow]

section Encoding

variable {M N : Type} [Memory M] [Memory N] {memory : M} {other : N} {address : UInt16}

theorem disassemble_eq_of_encoding
    (h : Memory.encoding memory address = Memory.encoding other address) :
    Memory.disassemble memory address = Memory.disassemble other address := by
  obtain ⟨hopcode, hoperand⟩ := List.cons.inj h
  rw [hopcode] at hoperand
  simp only [Memory.disassemble, hopcode, operandText_congr hoperand]

/-- The bytes of a documented instruction can be told from its line. -/
theorem encoding_eq_of_disassemble
    (hmemory : (Instruction.decode (Memory.peek memory address)).documented = true)
    (hother : (Instruction.decode (Memory.peek other address)).documented = true)
    (h : (Memory.disassemble memory address).1 = (Memory.disassemble other address).1) :
    Memory.encoding memory address = Memory.encoding other address := by
  have hread := congrArg Listing.read h
  rw [Listing.read_disassemble, Listing.read_disassemble] at hread
  obtain ⟨hmnemonic, hopening, hdigits, hclosing⟩ := Listing.mk.inj hread
  -- the shape comes first: until the opcode is known, the digits do not tell which bytes they are
  have hwidth := congrArg List.length hdigits
  rw [AddressingMode.length_digits, AddressingMode.length_digits] at hwidth
  have hopcode : Memory.peek memory address = Memory.peek other address :=
    opcode_eq_of_shape hmemory hother (by
      simp only [Instruction.shape, String.toList_inj.mp hmnemonic, hopening, hclosing, hwidth])
  rw [hopcode] at hdigits
  simp only [Memory.encoding, hopcode, operand_eq_of_digits hdigits]

end Encoding

/-- The line of the next instruction agrees with every step on plain storage that enters no handler
and is not refused. At one address, the same bytes are shown in the same way, and documented
instructions with different bytes in different ways. A memory is only looked at to disassemble it:
what comes of that is a line and a length, and a memory of any other kind with these bytes gives
the same. -/
theorem disassembly_faithful {σ : Type} :
    (∀ cpu : Cpu PlainMemory σ, cpu.registers.due? = none → cpu.step.1.wasRefused = false →
      cpu.Foretold (Memory.disassemble cpu.memory cpu.registers.pc)) ∧
    ∀ {M N : Type} [Memory M] [Memory N] (memory : M) (other : N) (address : UInt16),
      (Memory.encoding memory address = Memory.encoding other address →
        Memory.disassemble memory address = Memory.disassemble other address) ∧
      ((Instruction.decode (Memory.peek memory address)).documented = true →
        (Instruction.decode (Memory.peek other address)).documented = true →
        (Memory.disassemble memory address).1 = (Memory.disassemble other address).1 →
          Memory.encoding memory address = Memory.encoding other address) := by
  refine ⟨fun cpu hdue hran => foretold_disassemble hdue hran, ?_⟩
  intro M N _ _ memory other address
  exact ⟨disassemble_eq_of_encoding, encoding_eq_of_disassemble⟩

/-- A jump through the last byte of a page finds the rest of its target at the start of the page. -/
theorem disassembly_faithful_indirect :
    let cpu : Cpu PlainMemory Unit :=
      { registers := .initial
        memory := (((PlainMemory.zeros 0).load 0 [0x6C, 0xFF, 0x10]).load 0x10FF [0x34]).load
          0x1000 [0x12]
        memo := () }
    (Memory.disassemble cpu.memory cpu.registers.pc).1 = "JMP ($10FF)" ∧
      cpu.step.2.registers.pc.toNat = 0x1234 := by
  intro cpu
  have hcurrent : cpu.current = ⟨.jmp, .indirect, 5⟩ := by decide +kernel
  have hline : Memory.disassemble cpu.memory cpu.registers.pc = ("JMP ($10FF)", 3) := by
    decide +kernel
  have hnumber : (Listing.read "JMP ($10FF)").number = 0x10FF := by decide +kernel
  have hword : cpu.memory.wordInPage 0x10FF = 0x1234 := by decide +kernel
  have hdue : cpu.registers.due? = none := rfl
  obtain ⟨-, -, -, heffective⟩ := disassembly_faithful.1 cpu hdue rfl
  rw [hline, hcurrent, hnumber] at heffective
  refine ⟨congrArg Prod.fst hline, ?_⟩
  exact (heffective rfl nofun).2.trans hword

end AppleOne
