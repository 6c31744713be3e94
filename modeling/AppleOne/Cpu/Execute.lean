import AppleOne.Cpu.Effect
import AppleOne.Cpu.Instruction
import AppleOne.Cpu.Operand

/-!
# Executing instructions

One step of the processor is either the entry of an interrupt handler or one
instruction. Both are transactions on the bus that lead from registers to registers.

A non-maskable interrupt goes first, then a maskable one unless interrupts are
disabled, then the instruction at the program counter. An instruction costs its base
cycles, one more if it reads its operand across a page, one more for a branch that
is taken and another if the branch leaves the page of the next instruction.

## Main definitions

* `execute`: one instruction.
* `enterInterrupt`: one interrupt entry.
* `Registers.step`: whichever of them is due.
-/

namespace AppleOne.Cpu

/-- Where the handler of a non-maskable interrupt is found. -/
def nmiVector : UInt16 := 0xFFFA

/-- Where execution begins after a reset. -/
def resetVector : UInt16 := 0xFFFC

/-- Where the handler of maskable and software interrupts is found. -/
def irqVector : UInt16 := 0xFFFE

/-- The cycles of an interrupt entry. -/
def interruptCycles : Nat := 7

open Transaction

/-- Saves the place to come back to and the status, disables interrupts and goes on
at a vector. -/
def enterHandler (vector returnTo : UInt16) (status : UInt8) (r : Registers) :
    Transaction Registers := do
  let r ← pushWord returnTo r
  let r ← push status r
  let pc ← fetchWord vector
  return { r with pc, flags := { r.flags with interruptDisable := true } }

/-- Enters the handler of an interrupt; the pushed status has bit 4 clear. -/
def enterInterrupt (vector : UInt16) (r : Registers) : Transaction Registers := do
  let r ← enterHandler vector r.pc r.status r
  return r.spend interruptCycles

/-- Reads the operand. -/
def loadOperand (mode : AddressingMode) (r : Registers) : Transaction (UInt8 × Bool) :=
  match mode with
  | .accumulator => return (r.a, false)
  | _ => do
    let location ← locate r mode
    let value ← fetch location.address
    return (value, location.crossed)

/-- Reads the operand and writes it back changed. -/
def modifyOperand (mode : AddressingMode) (apply : UInt8 → Flags → UInt8 × Flags)
    (r : Registers) : Transaction Registers :=
  match mode with
  | .accumulator =>
    let (result, flags) := apply r.a r.flags
    return { r with a := result, flags }
  | _ => do
    let location ← locate r mode
    let value ← fetch location.address
    let (result, flags) := apply value r.flags
    put location.address result
    return { r with flags }

/-- The extra cycles of a branch at `pc`. -/
def branchPenalty (pc target : UInt16) : Nat :=
  1 + (differentPages (pc + 2) target).toNat

/-- Carries out an instruction that starts at the program counter. -/
def executeInstruction (instruction : Instruction) (r : Registers) : Transaction Registers :=
  let ⟨operation, mode, cycles⟩ := instruction
  let size := instruction.size
  match operation.effect with
  | .load apply => do
    let (value, crossed) ← loadOperand mode r
    return (apply value r).finish (cycles + crossed.toNat) size
  | .store value => do
    let location ← locate r mode
    put location.address (value r)
    return r.finish cycles size
  | .modify apply => do
    let r ← modifyOperand mode apply r
    return r.finish cycles size
  | .internal apply => return (apply r).finish cycles size
  | .branch taken => do
    let offset ← fetch (r.pc + 1)
    if taken r.flags then
      let target := branchTarget r.pc offset
      return { r.spend (cycles + branchPenalty r.pc target) with pc := target }
    else
      return r.finish cycles size
  | .push value => do
    let r ← push (value r) r
    return r.finish cycles size
  | .pull apply => do
    let (value, r) ← pull r
    return (apply value r).finish cycles size
  | .jump => do
    let location ← locate r mode
    return { r.spend cycles with pc := location.address }
  | .call => do
    let target ← fetchWord (r.pc + 1)
    let r ← pushWord (r.pc + 2) r
    return { r.spend cycles with pc := target }
  | .returnFromCall => do
    let (address, r) ← pullWord r
    return { r.spend cycles with pc := address + 1 }
  | .softwareInterrupt => do
    let r ← enterHandler irqVector (r.pc + 2) r.pushedStatus r
    return r.spend cycles
  | .returnFromInterrupt => do
    let (status, r) ← pull r
    let (pc, r) ← pullWord r
    return { (r.withStatus status).spend cycles with pc }

/-- Carries out the instruction of an opcode. -/
def execute (opcode : UInt8) (r : Registers) : Transaction Registers :=
  executeInstruction (.decode opcode) r

/-- One step: an interrupt entry, or an instruction, whose opcode is given back. -/
def Registers.step (r : Registers) : Transaction (Registers × Option UInt8) :=
  if r.nmiPending then do
    let r ← enterInterrupt nmiVector { r with nmiPending := false }
    return (r, none)
  else if r.irqPending && !r.flags.interruptDisable then do
    let r ← enterInterrupt irqVector { r with irqPending := false }
    return (r, none)
  else do
    let opcode ← fetch r.pc
    let r ← execute opcode r
    return (r, some opcode)

end AppleOne.Cpu
