import AppleOne.Cpu.Arithmetic
import AppleOne.Cpu.Operation

/-!
# Effects

Operations fall into a few classes by the way they use their operand: some read it,
some replace it, some only work on the registers. `Operation.effect` sorts every
operation into its class and says what it does to the registers there. Moving the
program counter and counting cycles are left to the class.
-/

namespace AppleOne.Cpu

/-- The use an operation makes of its operand and the registers. -/
inductive Effect where
  /-- Reads the operand. -/
  | load (apply : UInt8 → Registers → Registers)
  /-- Writes the operand without reading it. -/
  | store (value : Registers → UInt8)
  /-- Reads the operand and writes it back changed. -/
  | modify (apply : UInt8 → Flags → UInt8 × Flags)
  /-- Works on the registers alone. -/
  | internal (apply : Registers → Registers)
  /-- Goes elsewhere if the flags say so. -/
  | branch (taken : Flags → Bool)
  /-- Pushes a byte. -/
  | push (value : Registers → UInt8)
  /-- Pulls a byte. -/
  | pull (apply : UInt8 → Registers → Registers)
  /-- Continues at the operand's address. -/
  | jump
  /-- Continues at the operand's address and remembers the way back. -/
  | call
  /-- Takes the way back. -/
  | returnFromCall
  /-- Enters the interrupt handler. -/
  | softwareInterrupt
  /-- Leaves an interrupt handler. -/
  | returnFromInterrupt

namespace Registers

/-- Applies arithmetic on the accumulator. -/
def accumulate (f : UInt8 → UInt8 → Flags → UInt8 × Flags) (m : UInt8) (r : Registers) :
    Registers :=
  let (result, flags) := f r.a m r.flags
  { r with a := result, flags }

/-- Puts a result into the accumulator. -/
def loadA (value : UInt8) (r : Registers) : Registers :=
  { r.withResult value with a := value }

/-- Puts a result into X. -/
def loadX (value : UInt8) (r : Registers) : Registers :=
  { r.withResult value with x := value }

/-- Puts a result into Y. -/
def loadY (value : UInt8) (r : Registers) : Registers :=
  { r.withResult value with y := value }

/-- Changes the flags. -/
def mapFlags (f : Flags → Flags) (r : Registers) : Registers :=
  { r with flags := f r.flags }

/-- The status byte as an instruction pushes it. -/
def pushedStatus (r : Registers) : UInt8 :=
  r.status ||| breakBit

/-- Takes the flags from a status byte. -/
def withStatus (status : UInt8) (r : Registers) : Registers :=
  { r with flags := .ofByte status }

end Registers

section

open Registers

/-- The effect of every operation. -/
def Operation.effect : Operation → Effect
  | adc => .load (accumulate Arithmetic.add)
  | sbc => .load (accumulate Arithmetic.subtract)
  | and => .load fun m r => r.loadA (r.a &&& m)
  | ora => .load fun m r => r.loadA (r.a ||| m)
  | eor => .load fun m r => r.loadA (r.a ^^^ m)
  | cmp => .load fun m r => r.mapFlags (Arithmetic.compare r.a m)
  | cpx => .load fun m r => r.mapFlags (Arithmetic.compare r.x m)
  | cpy => .load fun m r => r.mapFlags (Arithmetic.compare r.y m)
  | bit => .load fun m r => r.mapFlags (Arithmetic.testBits r.a m)
  | lda => .load loadA
  | ldx => .load loadX
  | ldy => .load loadY
  | sta => .store (·.a)
  | stx => .store (·.x)
  | sty => .store (·.y)
  | asl => .modify Arithmetic.shiftLeft
  | lsr => .modify Arithmetic.shiftRight
  | rol => .modify Arithmetic.rotateLeft
  | ror => .modify Arithmetic.rotateRight
  | inc => .modify Arithmetic.increment
  | dec => .modify Arithmetic.decrement
  | inx => .internal fun r => r.loadX (r.x + 1)
  | dex => .internal fun r => r.loadX (r.x - 1)
  | iny => .internal fun r => r.loadY (r.y + 1)
  | dey => .internal fun r => r.loadY (r.y - 1)
  | tax => .internal fun r => r.loadX r.a
  | tay => .internal fun r => r.loadY r.a
  | txa => .internal fun r => r.loadA r.x
  | tya => .internal fun r => r.loadA r.y
  | tsx => .internal fun r => r.loadX r.sp
  | txs => .internal fun r => { r with sp := r.x }
  | clc => .internal (mapFlags ({ · with carry := false }))
  | sec => .internal (mapFlags ({ · with carry := true }))
  | cld => .internal (mapFlags ({ · with decimal := false }))
  | sed => .internal (mapFlags ({ · with decimal := true }))
  | cli => .internal (mapFlags ({ · with interruptDisable := false }))
  | sei => .internal (mapFlags ({ · with interruptDisable := true }))
  | clv => .internal (mapFlags ({ · with overflow := false }))
  | bcc => .branch (!·.carry)
  | bcs => .branch (·.carry)
  | bne => .branch (!·.zero)
  | beq => .branch (·.zero)
  | bpl => .branch (!·.negative)
  | bmi => .branch (·.negative)
  | bvc => .branch (!·.overflow)
  | bvs => .branch (·.overflow)
  | pha => .push (·.a)
  | php => .push pushedStatus
  | pla => .pull loadA
  | plp => .pull withStatus
  | jmp => .jump
  | jsr => .call
  | rts => .returnFromCall
  | brk => .softwareInterrupt
  | rti => .returnFromInterrupt
  | nop | undocumented => .internal id

end

end AppleOne.Cpu
