import AppleOne.Cpu.Registers

/-!
# Arithmetic and shifts

Addition and subtraction work on the accumulator, one operand byte and the carry,
in base 256 or, with the decimal flag, on two packed decimal digits. In decimal
addition the negative and overflow flags show the sum before its high digit is
corrected and the zero flag shows the binary sum; in decimal subtraction all flags
show the binary difference.

## Main definitions

* `add`, `subtract`: the result and the flags, in either mode.
* `compare`: the flags of a subtraction without borrow whose result is dropped.
* `shiftLeft`, `shiftRight`, `rotateLeft`, `rotateRight`: one place, with the bit
  that falls out in the carry.
-/

namespace AppleOne.Cpu

/-- The sign of a byte read as a signed number. -/
def isNegative (b : UInt8) : Bool :=
  128 ≤ b.toNat

namespace Arithmetic

/-- Addition in base 256. -/
def addBinary (a m : UInt8) (flags : Flags) : UInt8 × Flags :=
  let sum := a.toNat + m.toNat + flags.carry.toNat
  let result := sum.toUInt8
  (result, { flags.ofResult result with
    carry := 256 ≤ sum
    overflow := isNegative a == isNegative m && isNegative a != isNegative result })

/-- The sum of the low digits, as a digit and a carry of sixteen. -/
def decimalLow (a m carry : Nat) : Nat :=
  let low := a % 16 + m % 16 + carry
  if 10 ≤ low then (low + 6) % 16 + 16 else low

/-- The decimal sum before its high digit is corrected. -/
def decimalSum (a m carry : Nat) : Nat :=
  a / 16 * 16 + m / 16 * 16 + decimalLow a m carry

/-- Addition of packed decimal digits. -/
def addDecimal (a m : UInt8) (flags : Flags) : UInt8 × Flags :=
  let sum := decimalSum a.toNat m.toNat flags.carry.toNat
  let corrected := if 160 ≤ sum then sum + 96 else sum
  let binary := (a.toNat + m.toNat + flags.carry.toNat).toUInt8
  let signed := isNegative sum.toUInt8
  (corrected.toUInt8, { flags with
    negative := signed
    overflow := isNegative a == isNegative m && isNegative a != signed
    zero := binary == 0
    carry := 256 ≤ corrected })

/-- Addition, in the mode that the decimal flag chooses. -/
def add (a m : UInt8) (flags : Flags) : UInt8 × Flags :=
  if flags.decimal then addDecimal a m flags else addBinary a m flags

/-- Subtraction in base 256, a clear carry standing for a borrow. -/
def subtractBinary (a m : UInt8) (flags : Flags) : UInt8 × Flags :=
  addBinary a (~~~m) flags

/-- The difference of packed decimal digits. -/
def decimalDifference (a m : UInt8) (carry : Bool) : UInt8 :=
  let low : Int := (a.toNat % 16 : Int) - (m.toNat % 16 : Int) - (if carry then 0 else 1)
  let borrow : Int := if low < 0 then 1 else 0
  let lowDigit := if low < 0 then low - 6 else low
  let high : Int := (a.toNat / 16 : Int) - (m.toNat / 16 : Int) - borrow
  let highDigit := if high < 0 then high - 6 else high
  (highDigit % 16 * 16 + lowDigit % 16).toNat.toUInt8

/-- Subtraction, in the mode that the decimal flag chooses. -/
def subtract (a m : UInt8) (flags : Flags) : UInt8 × Flags :=
  let (binary, flagsAfter) := subtractBinary a m flags
  (if flags.decimal then decimalDifference a m flags.carry else binary, flagsAfter)

/-- The flags after comparing a register with a value. -/
def compare (register m : UInt8) (flags : Flags) : Flags :=
  { flags.ofResult (register - m) with carry := m ≤ register }

/-- The flags after testing a value against the accumulator. -/
def testBits (a m : UInt8) (flags : Flags) : Flags :=
  { flags with negative := m &&& 0x80 != 0, overflow := m &&& 0x40 != 0, zero := a &&& m == 0 }

/-- A result with the flags it sets and the carry given. -/
def shifted (result : UInt8) (carry : Bool) (flags : Flags) : UInt8 × Flags :=
  (result, { flags.ofResult result with carry })

/-- Shifts a zero in at the right. -/
def shiftLeft (m : UInt8) (flags : Flags) : UInt8 × Flags :=
  shifted (m <<< 1) (m &&& 0x80 != 0) flags

/-- Shifts a zero in at the left. -/
def shiftRight (m : UInt8) (flags : Flags) : UInt8 × Flags :=
  shifted (m >>> 1) (m &&& 0x01 != 0) flags

/-- Shifts the carry in at the right. -/
def rotateLeft (m : UInt8) (flags : Flags) : UInt8 × Flags :=
  shifted (m <<< 1 ||| Flags.bits flags.carry 0x01) (m &&& 0x80 != 0) flags

/-- Shifts the carry in at the left. -/
def rotateRight (m : UInt8) (flags : Flags) : UInt8 × Flags :=
  shifted (m >>> 1 ||| Flags.bits flags.carry 0x80) (m &&& 0x01 != 0) flags

/-- Adds one. -/
def increment (m : UInt8) (flags : Flags) : UInt8 × Flags :=
  (m + 1, flags.ofResult (m + 1))

/-- Subtracts one. -/
def decrement (m : UInt8) (flags : Flags) : UInt8 × Flags :=
  (m - 1, flags.ofResult (m - 1))

end Arithmetic

end AppleOne.Cpu
