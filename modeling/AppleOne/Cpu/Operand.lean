import AppleOne.Cpu.AddressingMode
import AppleOne.Cpu.Registers
import AppleOne.Cpu.Transaction

/-!
# Operands and the stack

How an instruction reaches its operand, and how bytes go to the stack and come back.
Index arithmetic on page zero stays in page zero, and the pointer of an indirect
jump does not cross a page. The stack is page one, growing downwards.

## Main definitions

* `locate`: the address an addressing mode leads to.
* `push`, `pull` and their two-byte forms.
-/

namespace AppleOne.Cpu

/-- An effective address, and whether indexing left the page of the base address. -/
structure Location where
  address : UInt16
  crossed : Bool
  deriving DecidableEq, Repr

/-- Whether two addresses lie in different pages of 256 bytes. -/
def differentPages (first second : UInt16) : Bool :=
  first >>> 8 != second >>> 8

/-- An address that was not indexed. -/
def Location.direct (address : UInt16) : Location := ⟨address, false⟩

/-- A base address with an index added. -/
def Location.indexed (base : UInt16) (index : UInt8) : Location :=
  let address := base + index.toUInt16
  ⟨address, differentPages base address⟩

/-- The address after `address` within the same page. -/
def nextInPage (address : UInt16) : UInt16 :=
  address &&& 0xFF00 ||| (address + 1) &&& 0x00FF

open Transaction

/-- Reads a word, low byte first. -/
def fetchWord (address : UInt16) : Transaction UInt16 := do
  let low ← fetch address
  let high ← fetch (address + 1)
  return word low high

/-- Reads a word whose two bytes lie in one page. -/
def fetchWordInPage (address : UInt16) : Transaction UInt16 := do
  let low ← fetch address
  let high ← fetch (nextInPage address)
  return word low high

/-- Finds the operand of the instruction at the program counter. The modes without
an operand in memory locate the instruction itself. -/
def locate (r : Registers) : AddressingMode → Transaction Location
  | .implied | .accumulator | .relative => return .direct r.pc
  | .immediate => return .direct (r.pc + 1)
  | .zeroPage => do
    let operand ← fetch (r.pc + 1)
    return .direct operand.toUInt16
  | .zeroPageX => do
    let operand ← fetch (r.pc + 1)
    return .direct (operand + r.x).toUInt16
  | .zeroPageY => do
    let operand ← fetch (r.pc + 1)
    return .direct (operand + r.y).toUInt16
  | .absolute => do
    let address ← fetchWord (r.pc + 1)
    return .direct address
  | .absoluteX => do
    let base ← fetchWord (r.pc + 1)
    return .indexed base r.x
  | .absoluteY => do
    let base ← fetchWord (r.pc + 1)
    return .indexed base r.y
  | .indirect => do
    let pointer ← fetchWord (r.pc + 1)
    let address ← fetchWordInPage pointer
    return .direct address
  | .indirectX => do
    let operand ← fetch (r.pc + 1)
    let address ← fetchWordInPage (operand + r.x).toUInt16
    return .direct address
  | .indirectY => do
    let operand ← fetch (r.pc + 1)
    let base ← fetchWordInPage operand.toUInt16
    return .indexed base r.y

/-- The address of the stack slot a stack pointer names. -/
def stackAddress (sp : UInt8) : UInt16 :=
  0x0100 ||| sp.toUInt16

/-- Writes a byte to the stack. -/
def push (value : UInt8) (r : Registers) : Transaction Registers := do
  put (stackAddress r.sp) value
  return { r with sp := r.sp - 1 }

/-- Writes a word to the stack, high byte first. -/
def pushWord (value : UInt16) (r : Registers) : Transaction Registers := do
  let r ← push (value >>> 8).toUInt8 r
  push value.toUInt8 r

/-- Takes the newest byte from the stack. -/
def pull (r : Registers) : Transaction (UInt8 × Registers) := do
  let sp := r.sp + 1
  let value ← fetch (stackAddress sp)
  return (value, { r with sp })

/-- Takes a word from the stack, low byte first. -/
def pullWord (r : Registers) : Transaction (UInt16 × Registers) := do
  let (low, r) ← pull r
  let (high, r) ← pull r
  return (word low high, r)

end AppleOne.Cpu
