import AppleOne.Text.Hex

/-!
# Addressing modes

An addressing mode says how many operand bytes follow an opcode, how they lead to
the operand, and how assembler text shows them.
-/

namespace AppleOne.Cpu

/-- How an instruction finds its operand. -/
inductive AddressingMode where
  /-- No operand. -/
  | implied
  /-- The accumulator. -/
  | accumulator
  /-- The byte after the opcode. -/
  | immediate
  /-- An address in page zero. -/
  | zeroPage
  /-- An address in page zero plus X, within the page. -/
  | zeroPageX
  /-- An address in page zero plus Y, within the page. -/
  | zeroPageY
  /-- A signed distance from the next instruction. -/
  | relative
  /-- A full address. -/
  | absolute
  /-- A full address plus X. -/
  | absoluteX
  /-- A full address plus Y. -/
  | absoluteY
  /-- The address of a pointer, which never crosses a page. -/
  | indirect
  /-- A pointer in page zero, at the operand plus X. -/
  | indirectX
  /-- A pointer in page zero, to whose target Y is added. -/
  | indirectY
  deriving DecidableEq, Repr

namespace AddressingMode

/-- The number of operand bytes after the opcode. -/
def operandSize : AddressingMode → Nat
  | implied | accumulator => 0
  | absolute | absoluteX | absoluteY | indirect => 2
  | _ => 1

end AddressingMode

/-- The word made of a low and a high byte. -/
def word (low high : UInt8) : UInt16 :=
  high.toUInt16 <<< 8 ||| low.toUInt16

/-- A byte read as a signed number, widened to a word. -/
def signExtend (offset : UInt8) : UInt16 :=
  if offset < 0x80 then offset.toUInt16 else offset.toUInt16 ||| 0xFF00

/-- Where a branch at `pc` leads when it is taken. -/
def branchTarget (pc : UInt16) (offset : UInt8) : UInt16 :=
  pc + 2 + signExtend offset

namespace AddressingMode

/-- The operand in assembler text. The address `pc` of the opcode matters only for
branches, which show their target. -/
def operandText (mode : AddressingMode) (pc : UInt16) (low high : UInt8) : String :=
  match mode with
  | implied => ""
  | accumulator => "A"
  | immediate => "#$" ++ Text.hexByte low
  | zeroPage => "$" ++ Text.hexByte low
  | zeroPageX => "$" ++ Text.hexByte low ++ ",X"
  | zeroPageY => "$" ++ Text.hexByte low ++ ",Y"
  | relative => "$" ++ Text.hexWord (branchTarget pc low)
  | absolute => "$" ++ Text.hexWord (word low high)
  | absoluteX => "$" ++ Text.hexWord (word low high) ++ ",X"
  | absoluteY => "$" ++ Text.hexWord (word low high) ++ ",Y"
  | indirect => "($" ++ Text.hexWord (word low high) ++ ")"
  | indirectX => "($" ++ Text.hexByte low ++ ",X)"
  | indirectY => "($" ++ Text.hexByte low ++ "),Y"

end AddressingMode

end AppleOne.Cpu
