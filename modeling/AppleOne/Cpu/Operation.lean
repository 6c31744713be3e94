/-!
# Operations

The fifty-six documented operations of the processor, and one more that stands for
every opcode outside the documented set.
-/

namespace AppleOne.Cpu

/-- What an instruction does, apart from where its operand comes from. -/
inductive Operation where
  | adc -- add with carry
  | and -- and with the accumulator
  | asl -- shift left
  | bcc -- branch if carry clear
  | bcs -- branch if carry set
  | beq -- branch if zero
  | bit -- test bits
  | bmi -- branch if negative
  | bne -- branch if not zero
  | bpl -- branch if positive
  | brk -- software interrupt
  | bvc -- branch if overflow clear
  | bvs -- branch if overflow set
  | clc -- clear carry
  | cld -- clear decimal
  | cli -- clear interrupt disable
  | clv -- clear overflow
  | cmp -- compare accumulator
  | cpx -- compare X
  | cpy -- compare Y
  | dec -- decrement memory
  | dex -- decrement X
  | dey -- decrement Y
  | eor -- exclusive or with the accumulator
  | inc -- increment memory
  | inx -- increment X
  | iny -- increment Y
  | jmp -- jump
  | jsr -- jump to subroutine
  | lda -- load accumulator
  | ldx -- load X
  | ldy -- load Y
  | lsr -- shift right
  | nop -- no operation
  | ora -- or with the accumulator
  | pha -- push accumulator
  | php -- push status
  | pla -- pull accumulator
  | plp -- pull status
  | rol -- rotate left
  | ror -- rotate right
  | rti -- return from interrupt
  | rts -- return from subroutine
  | sbc -- subtract with borrow
  | sec -- set carry
  | sed -- set decimal
  | sei -- set interrupt disable
  | sta -- store accumulator
  | stx -- store X
  | sty -- store Y
  | tax -- copy A to X
  | tay -- copy A to Y
  | tsx -- copy the stack pointer to X
  | txa -- copy X to A
  | txs -- copy X to the stack pointer
  | tya -- copy Y to A
  | undocumented
  deriving DecidableEq, Repr

namespace Operation

/-- The assembler name of an operation. -/
def mnemonic : Operation → String
  | adc => "ADC"
  | and => "AND"
  | asl => "ASL"
  | bcc => "BCC"
  | bcs => "BCS"
  | beq => "BEQ"
  | bit => "BIT"
  | bmi => "BMI"
  | bne => "BNE"
  | bpl => "BPL"
  | brk => "BRK"
  | bvc => "BVC"
  | bvs => "BVS"
  | clc => "CLC"
  | cld => "CLD"
  | cli => "CLI"
  | clv => "CLV"
  | cmp => "CMP"
  | cpx => "CPX"
  | cpy => "CPY"
  | dec => "DEC"
  | dex => "DEX"
  | dey => "DEY"
  | eor => "EOR"
  | inc => "INC"
  | inx => "INX"
  | iny => "INY"
  | jmp => "JMP"
  | jsr => "JSR"
  | lda => "LDA"
  | ldx => "LDX"
  | ldy => "LDY"
  | lsr => "LSR"
  | nop => "NOP"
  | ora => "ORA"
  | pha => "PHA"
  | php => "PHP"
  | pla => "PLA"
  | plp => "PLP"
  | rol => "ROL"
  | ror => "ROR"
  | rti => "RTI"
  | rts => "RTS"
  | sbc => "SBC"
  | sec => "SEC"
  | sed => "SED"
  | sei => "SEI"
  | sta => "STA"
  | stx => "STX"
  | sty => "STY"
  | tax => "TAX"
  | tay => "TAY"
  | tsx => "TSX"
  | txa => "TXA"
  | txs => "TXS"
  | tya => "TYA"
  | undocumented => "???"

end Operation

end AppleOne.Cpu
