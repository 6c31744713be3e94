/-!
# Registers

The state inside the processor: the registers, the six flags, the cycle counter and
the two latches that remember interrupt requests. The status byte packs the flags;
its bit 5 is always set, and its bit 4 tells on the stack whether an instruction or
an interrupt pushed it.
-/

namespace AppleOne.Cpu

/-- The six flags. -/
structure Flags where
  negative : Bool
  overflow : Bool
  decimal : Bool
  interruptDisable : Bool
  zero : Bool
  carry : Bool
  deriving DecidableEq, Repr

/-- Bit 4 of a pushed status byte: set by instructions, clear for interrupts. -/
def breakBit : UInt8 := 0x10

namespace Flags

/-- The flags after power-on: only interrupts are disabled. -/
def initial : Flags := ⟨false, false, false, true, false, false⟩

/-- The byte with the given bits when `flag` is set. -/
def bits (flag : Bool) (mask : UInt8) : UInt8 :=
  if flag then mask else 0

/-- The status byte, with bit 5 set and bit 4 clear. -/
def toByte (flags : Flags) : UInt8 :=
  0x20 ||| bits flags.negative 0x80 ||| bits flags.overflow 0x40 ||| bits flags.decimal 0x08 |||
    bits flags.interruptDisable 0x04 ||| bits flags.zero 0x02 ||| bits flags.carry 0x01

/-- The flags of a status byte, of which bits 5 and 4 mean nothing. -/
def ofByte (status : UInt8) : Flags where
  negative := status &&& 0x80 != 0
  overflow := status &&& 0x40 != 0
  decimal := status &&& 0x08 != 0
  interruptDisable := status &&& 0x04 != 0
  zero := status &&& 0x02 != 0
  carry := status &&& 0x01 != 0

/-- Sets the negative and zero flags from a result. -/
def ofResult (flags : Flags) (result : UInt8) : Flags :=
  { flags with negative := result &&& 0x80 != 0, zero := result == 0 }

end Flags

/-- Everything the processor holds besides its memory. -/
structure Registers where
  pc : UInt16
  a : UInt8
  x : UInt8
  y : UInt8
  sp : UInt8
  flags : Flags
  /-- Cycles since the last reset. -/
  cycles : UInt64
  irqPending : Bool
  nmiPending : Bool
  deriving DecidableEq, Repr

namespace Registers

/-- The registers at power-on, before the reset vector is read. -/
def initial : Registers :=
  ⟨0, 0, 0, 0, 0xFD, .initial, 0, false, false⟩

/-- The status byte. -/
def status (r : Registers) : UInt8 :=
  r.flags.toByte

/-- Sets the negative and zero flags from a result. -/
def withResult (r : Registers) (result : UInt8) : Registers :=
  { r with flags := r.flags.ofResult result }

/-- Lets cycles pass. -/
def spend (r : Registers) (cycles : Nat) : Registers :=
  { r with cycles := r.cycles + cycles.toUInt64 }

/-- Lets cycles pass and moves on to the instruction `size` bytes further. -/
def finish (r : Registers) (cycles size : Nat) : Registers :=
  { r with cycles := r.cycles + cycles.toUInt64, pc := r.pc + size.toUInt16 }

end Registers

end AppleOne.Cpu
