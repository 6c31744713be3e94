import AppleOne.Cpu.Operation
import AppleOne.Cpu.AddressingMode

/-!
# The instruction set

Every opcode byte stands for an operation with an addressing mode and a base number
of cycles. The 105 bytes outside the documented set are no-operations of one byte
and two cycles.

## Main definitions

* `Instruction`: what an opcode byte stands for.
* `Instruction.decode`: the instruction of every byte.
-/

namespace AppleOne.Cpu

/-- An entry of the instruction set. -/
structure Instruction where
  operation : Operation
  mode : AddressingMode
  /-- Cycles without the extra ones for crossed pages and taken branches. -/
  cycles : Nat
  deriving DecidableEq, Repr

namespace Instruction

/-- The length of an instruction in bytes, opcode included. -/
def size (instruction : Instruction) : Nat :=
  1 + instruction.mode.operandSize

/-- The assembler name of an instruction. -/
def mnemonic (instruction : Instruction) : String :=
  instruction.operation.mnemonic

/-- Whether the instruction belongs to the documented set. -/
def documented (instruction : Instruction) : Bool :=
  instruction.operation != .undocumented

/-- What every byte outside the documented set stands for. -/
def undocumented : Instruction :=
  ⟨.undocumented, .implied, 2⟩

/-- The instruction set as a matrix: a row for every high digit of the opcode and a
column for every low digit. -/
def matrix : Vector (Vector Instruction 16) 16 := #v[
  -- 00 to 0F
  ⟨#[⟨.brk, .implied, 7⟩, ⟨.ora, .indirectX, 6⟩, undocumented, undocumented, undocumented,
    ⟨.ora, .zeroPage, 3⟩, ⟨.asl, .zeroPage, 5⟩, undocumented, ⟨.php, .implied, 3⟩,
    ⟨.ora, .immediate, 2⟩, ⟨.asl, .accumulator, 2⟩, undocumented, undocumented,
    ⟨.ora, .absolute, 4⟩, ⟨.asl, .absolute, 6⟩, undocumented], rfl⟩,
  -- 10 to 1F
  ⟨#[⟨.bpl, .relative, 2⟩, ⟨.ora, .indirectY, 5⟩, undocumented, undocumented, undocumented,
    ⟨.ora, .zeroPageX, 4⟩, ⟨.asl, .zeroPageX, 6⟩, undocumented, ⟨.clc, .implied, 2⟩,
    ⟨.ora, .absoluteY, 4⟩, undocumented, undocumented, undocumented, ⟨.ora, .absoluteX, 4⟩,
    ⟨.asl, .absoluteX, 7⟩, undocumented], rfl⟩,
  -- 20 to 2F
  ⟨#[⟨.jsr, .absolute, 6⟩, ⟨.and, .indirectX, 6⟩, undocumented, undocumented, ⟨.bit, .zeroPage, 3⟩,
    ⟨.and, .zeroPage, 3⟩, ⟨.rol, .zeroPage, 5⟩, undocumented, ⟨.plp, .implied, 4⟩,
    ⟨.and, .immediate, 2⟩, ⟨.rol, .accumulator, 2⟩, undocumented, ⟨.bit, .absolute, 4⟩,
    ⟨.and, .absolute, 4⟩, ⟨.rol, .absolute, 6⟩, undocumented], rfl⟩,
  -- 30 to 3F
  ⟨#[⟨.bmi, .relative, 2⟩, ⟨.and, .indirectY, 5⟩, undocumented, undocumented, undocumented,
    ⟨.and, .zeroPageX, 4⟩, ⟨.rol, .zeroPageX, 6⟩, undocumented, ⟨.sec, .implied, 2⟩,
    ⟨.and, .absoluteY, 4⟩, undocumented, undocumented, undocumented, ⟨.and, .absoluteX, 4⟩,
    ⟨.rol, .absoluteX, 7⟩, undocumented], rfl⟩,
  -- 40 to 4F
  ⟨#[⟨.rti, .implied, 6⟩, ⟨.eor, .indirectX, 6⟩, undocumented, undocumented, undocumented,
    ⟨.eor, .zeroPage, 3⟩, ⟨.lsr, .zeroPage, 5⟩, undocumented, ⟨.pha, .implied, 3⟩,
    ⟨.eor, .immediate, 2⟩, ⟨.lsr, .accumulator, 2⟩, undocumented, ⟨.jmp, .absolute, 3⟩,
    ⟨.eor, .absolute, 4⟩, ⟨.lsr, .absolute, 6⟩, undocumented], rfl⟩,
  -- 50 to 5F
  ⟨#[⟨.bvc, .relative, 2⟩, ⟨.eor, .indirectY, 5⟩, undocumented, undocumented, undocumented,
    ⟨.eor, .zeroPageX, 4⟩, ⟨.lsr, .zeroPageX, 6⟩, undocumented, ⟨.cli, .implied, 2⟩,
    ⟨.eor, .absoluteY, 4⟩, undocumented, undocumented, undocumented, ⟨.eor, .absoluteX, 4⟩,
    ⟨.lsr, .absoluteX, 7⟩, undocumented], rfl⟩,
  -- 60 to 6F
  ⟨#[⟨.rts, .implied, 6⟩, ⟨.adc, .indirectX, 6⟩, undocumented, undocumented, undocumented,
    ⟨.adc, .zeroPage, 3⟩, ⟨.ror, .zeroPage, 5⟩, undocumented, ⟨.pla, .implied, 4⟩,
    ⟨.adc, .immediate, 2⟩, ⟨.ror, .accumulator, 2⟩, undocumented, ⟨.jmp, .indirect, 5⟩,
    ⟨.adc, .absolute, 4⟩, ⟨.ror, .absolute, 6⟩, undocumented], rfl⟩,
  -- 70 to 7F
  ⟨#[⟨.bvs, .relative, 2⟩, ⟨.adc, .indirectY, 5⟩, undocumented, undocumented, undocumented,
    ⟨.adc, .zeroPageX, 4⟩, ⟨.ror, .zeroPageX, 6⟩, undocumented, ⟨.sei, .implied, 2⟩,
    ⟨.adc, .absoluteY, 4⟩, undocumented, undocumented, undocumented, ⟨.adc, .absoluteX, 4⟩,
    ⟨.ror, .absoluteX, 7⟩, undocumented], rfl⟩,
  -- 80 to 8F
  ⟨#[undocumented, ⟨.sta, .indirectX, 6⟩, undocumented, undocumented, ⟨.sty, .zeroPage, 3⟩,
    ⟨.sta, .zeroPage, 3⟩, ⟨.stx, .zeroPage, 3⟩, undocumented, ⟨.dey, .implied, 2⟩, undocumented,
    ⟨.txa, .implied, 2⟩, undocumented, ⟨.sty, .absolute, 4⟩, ⟨.sta, .absolute, 4⟩,
    ⟨.stx, .absolute, 4⟩, undocumented], rfl⟩,
  -- 90 to 9F
  ⟨#[⟨.bcc, .relative, 2⟩, ⟨.sta, .indirectY, 6⟩, undocumented, undocumented, ⟨.sty, .zeroPageX, 4⟩,
    ⟨.sta, .zeroPageX, 4⟩, ⟨.stx, .zeroPageY, 4⟩, undocumented, ⟨.tya, .implied, 2⟩,
    ⟨.sta, .absoluteY, 5⟩, ⟨.txs, .implied, 2⟩, undocumented, undocumented, ⟨.sta, .absoluteX, 5⟩,
    undocumented, undocumented], rfl⟩,
  -- A0 to AF
  ⟨#[⟨.ldy, .immediate, 2⟩, ⟨.lda, .indirectX, 6⟩, ⟨.ldx, .immediate, 2⟩, undocumented,
    ⟨.ldy, .zeroPage, 3⟩, ⟨.lda, .zeroPage, 3⟩, ⟨.ldx, .zeroPage, 3⟩, undocumented,
    ⟨.tay, .implied, 2⟩, ⟨.lda, .immediate, 2⟩, ⟨.tax, .implied, 2⟩, undocumented,
    ⟨.ldy, .absolute, 4⟩, ⟨.lda, .absolute, 4⟩, ⟨.ldx, .absolute, 4⟩, undocumented], rfl⟩,
  -- B0 to BF
  ⟨#[⟨.bcs, .relative, 2⟩, ⟨.lda, .indirectY, 5⟩, undocumented, undocumented, ⟨.ldy, .zeroPageX, 4⟩,
    ⟨.lda, .zeroPageX, 4⟩, ⟨.ldx, .zeroPageY, 4⟩, undocumented, ⟨.clv, .implied, 2⟩,
    ⟨.lda, .absoluteY, 4⟩, ⟨.tsx, .implied, 2⟩, undocumented, ⟨.ldy, .absoluteX, 4⟩,
    ⟨.lda, .absoluteX, 4⟩, ⟨.ldx, .absoluteY, 4⟩, undocumented], rfl⟩,
  -- C0 to CF
  ⟨#[⟨.cpy, .immediate, 2⟩, ⟨.cmp, .indirectX, 6⟩, undocumented, undocumented, ⟨.cpy, .zeroPage, 3⟩,
    ⟨.cmp, .zeroPage, 3⟩, ⟨.dec, .zeroPage, 5⟩, undocumented, ⟨.iny, .implied, 2⟩,
    ⟨.cmp, .immediate, 2⟩, ⟨.dex, .implied, 2⟩, undocumented, ⟨.cpy, .absolute, 4⟩,
    ⟨.cmp, .absolute, 4⟩, ⟨.dec, .absolute, 6⟩, undocumented], rfl⟩,
  -- D0 to DF
  ⟨#[⟨.bne, .relative, 2⟩, ⟨.cmp, .indirectY, 5⟩, undocumented, undocumented, undocumented,
    ⟨.cmp, .zeroPageX, 4⟩, ⟨.dec, .zeroPageX, 6⟩, undocumented, ⟨.cld, .implied, 2⟩,
    ⟨.cmp, .absoluteY, 4⟩, undocumented, undocumented, undocumented, ⟨.cmp, .absoluteX, 4⟩,
    ⟨.dec, .absoluteX, 7⟩, undocumented], rfl⟩,
  -- E0 to EF
  ⟨#[⟨.cpx, .immediate, 2⟩, ⟨.sbc, .indirectX, 6⟩, undocumented, undocumented, ⟨.cpx, .zeroPage, 3⟩,
    ⟨.sbc, .zeroPage, 3⟩, ⟨.inc, .zeroPage, 5⟩, undocumented, ⟨.inx, .implied, 2⟩,
    ⟨.sbc, .immediate, 2⟩, ⟨.nop, .implied, 2⟩, undocumented, ⟨.cpx, .absolute, 4⟩,
    ⟨.sbc, .absolute, 4⟩, ⟨.inc, .absolute, 6⟩, undocumented], rfl⟩,
  -- F0 to FF
  ⟨#[⟨.beq, .relative, 2⟩, ⟨.sbc, .indirectY, 5⟩, undocumented, undocumented, undocumented,
    ⟨.sbc, .zeroPageX, 4⟩, ⟨.inc, .zeroPageX, 6⟩, undocumented, ⟨.sed, .implied, 2⟩,
    ⟨.sbc, .absoluteY, 4⟩, undocumented, undocumented, undocumented, ⟨.sbc, .absoluteX, 4⟩,
    ⟨.inc, .absoluteX, 7⟩, undocumented], rfl⟩]

/-- The instruction that an opcode byte stands for. -/
def decode (opcode : UInt8) : Instruction :=
  have h := UInt8.toNat_lt opcode
  matrix[opcode.toNat / 16][opcode.toNat % 16]

end Instruction

end AppleOne.Cpu
