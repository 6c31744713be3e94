import AppleOne.Cpu.Execute
import AppleOne.Log.Fault

/-!
# The processor

A processor is a set of registers and a memory, with three aids for watching it run.
A hook is asked before every step and may refuse it; a refused step does nothing at
all. The hook can be passed by for one step. A profile counts the opcodes executed.

## Main definitions

* `Cpu`, and `Cpu.powerOn`, which starts one at its reset vector.
* `Cpu.step`: one step, if the hook allows it.
* `Cpu.runFor`: steps until a number of cycles has passed.
* `Cpu.profile`: the opcodes executed, the most frequent first.
-/

namespace AppleOne

namespace Cpu

/-- Asked for leave before a step at an address; `σ` is what hooks remember. -/
abbrev Hook (σ : Type) := UInt16 → σ → Bool × σ

/-- What became of a step. -/
inductive Outcome where
  | ran (cycles : UInt8)
  | refused (pc : UInt16)
  deriving DecidableEq, Repr

namespace Outcome

/-- The cycles that a step took. -/
def cycles : Outcome → UInt8
  | ran cycles => cycles
  | refused _ => 0

/-- Whether a step was refused. -/
def wasRefused : Outcome → Bool
  | ran _ => false
  | refused _ => true

end Outcome

/-- How often an opcode was executed. -/
structure ProfileEntry where
  opcode : UInt8
  count : UInt64
  deriving DecidableEq, Repr

/-- The name under which the processor reports. -/
def logSource : String := "cpu"

end Cpu

/-- A processor with its memory. -/
structure Cpu (M σ : Type) where
  registers : Cpu.Registers
  memory : M
  hook : Option (Cpu.Hook σ) := none
  /-- What hooks have noted so far. It outlives the hook. -/
  memo : σ
  /-- Whether the next step goes ahead without asking the hook. -/
  bypass : Bool := false
  profiling : Bool := false
  counts : Vector UInt64 256 := Vector.replicate 256 0

namespace Cpu

variable {M σ : Type} [Memory M]

/-- Puts the registers into their initial state and reads the reset vector. -/
def restart (cpu : Cpu M σ) : Cpu M σ :=
  let (pc, memory) := (fetchWord resetVector).run cpu.memory
  { cpu with registers := { Registers.initial with pc }, memory, bypass := false }

/-- A processor that has just been switched on. -/
def powerOn (memory : M) (memo : σ) : Cpu M σ :=
  restart { registers := .initial, memory, memo }

/-- Reports a message to the memory's log. -/
def report (cpu : Cpu M σ) (note : Note) : Cpu M σ :=
  { cpu with memory := Memory.report cpu.memory note }

/-- The reset line: the registers start afresh while hook and profile stay. -/
def reset (cpu : Cpu M σ) : Cpu M σ :=
  let cpu := cpu.restart
  cpu.report ⟨.info, logSource, "reset, PC=0x" ++ Text.hexWord cpu.registers.pc⟩

/-- Counts an opcode in the profile. -/
def count (cpu : Cpu M σ) (opcode : UInt8) : Cpu M σ :=
  if cpu.profiling then
    have h := UInt8.toNat_lt opcode
    { cpu with counts := cpu.counts.set opcode.toNat (cpu.counts[opcode.toNat] + 1) }
  else cpu

/-- Reports an opcode outside the documented set. -/
def reportOpcode (cpu : Cpu M σ) (opcode : UInt8) (pc : UInt16) : Cpu M σ :=
  if (Instruction.decode opcode).documented then cpu
  else cpu.report (Fault.illegalOpcode.note logSource
    ("0x" ++ Text.hexByte opcode ++ " at 0x" ++ Text.hexWord pc ++ " executed as NOP"))

/-- Goes through one step without asking anyone. -/
def advance (cpu : Cpu M σ) : Outcome × Cpu M σ :=
  let before := cpu.registers
  let ((registers, opcode), memory) := before.step.run cpu.memory
  let cpu := { cpu with registers, memory }
  let cpu := match opcode with
    | some opcode => (cpu.count opcode).reportOpcode opcode before.pc
    | none => cpu
  (.ran (registers.cycles - before.cycles).toUInt8, cpu)

/-- One step. A pending bypass is used up; otherwise a hook, if there is one, is
asked, and on its refusal nothing happens. -/
def step (cpu : Cpu M σ) : Outcome × Cpu M σ :=
  if cpu.bypass then
    { cpu with bypass := false }.advance
  else
    match cpu.hook with
    | none => cpu.advance
    | some ask =>
      let (allowed, memo) := ask cpu.registers.pc cpu.memo
      let cpu := { cpu with memo }
      if allowed then cpu.advance else (.refused cpu.registers.pc, cpu)

/-- Lets the next step go ahead without asking the hook. -/
def bypassOnce (cpu : Cpu M σ) : Cpu M σ :=
  { cpu with bypass := true }

/-- One step that no hook can refuse. -/
def singleStep (cpu : Cpu M σ) : Outcome × Cpu M σ :=
  cpu.bypassOnce.step

/-- At most `steps` steps while the cycle counter is below `target`, ending early
with a refused step. -/
def runUntil (target : UInt64) : Nat → Cpu M σ → Cpu M σ
  | 0, cpu => cpu
  | steps + 1, cpu =>
    if cpu.registers.cycles < target then
      let (outcome, cpu) := cpu.step
      if outcome.wasRefused then cpu else runUntil target steps cpu
    else cpu

/-- The most steps of one run. Every step takes a cycle or more, so they are enough for
the cycle counter to go through its whole range. -/
def maxSteps : Nat := UInt64.size

/-- Steps until the cycle counter is `budget` further or a step is refused, and the
cycles by which it is further then. If a step makes the counter overflow before it has
reached its target, the run goes on until the counter comes there from zero. -/
def runFor (cpu : Cpu M σ) (budget : UInt64) : UInt64 × Cpu M σ :=
  let start := cpu.registers.cycles
  let cpu := cpu.runUntil (start + budget) maxSteps
  (cpu.registers.cycles - start, cpu)

/-- Requests an interrupt, which waits until interrupts are enabled. -/
def requestIrq (cpu : Cpu M σ) : Cpu M σ :=
  { cpu with registers := { cpu.registers with irqPending := true } }

/-- Withdraws an interrupt request. -/
def withdrawIrq (cpu : Cpu M σ) : Cpu M σ :=
  { cpu with registers := { cpu.registers with irqPending := false } }

/-- Requests an interrupt that cannot be disabled. -/
def requestNmi (cpu : Cpu M σ) : Cpu M σ :=
  { cpu with registers := { cpu.registers with nmiPending := true } }

/-- Installs a hook in place of the present one. -/
def setHook (cpu : Cpu M σ) (hook : Hook σ) : Cpu M σ :=
  { cpu with hook := some hook }

/-- Removes the hook. -/
def clearHook (cpu : Cpu M σ) : Cpu M σ :=
  { cpu with hook := none }

/-- Whether a hook is installed. -/
def hasHook (cpu : Cpu M σ) : Bool :=
  cpu.hook.isSome

/-- Switches profiling; switching it on starts a new profile. -/
def switchProfiling (cpu : Cpu M σ) (enabled : Bool) : Cpu M σ :=
  if enabled && !cpu.profiling then
    { cpu with profiling := true, counts := Vector.replicate 256 0 }
  else { cpu with profiling := enabled }

/-- More frequent opcodes come first, and the smaller opcode of equally frequent ones. -/
def ProfileEntry.precedes (first second : ProfileEntry) : Bool :=
  second.count < first.count || (first.count == second.count && first.opcode ≤ second.opcode)

/-- The opcodes that were executed, in order of their frequency. -/
def profile (cpu : Cpu M σ) : List ProfileEntry :=
  let counted := cpu.counts.toList.mapIdx fun opcode count => ⟨opcode.toUInt8, count⟩
  (counted.filter (·.count != 0)).mergeSort ProfileEntry.precedes

/-- Replaces the registers, and forgets a bypass that was asked for. -/
def restore (cpu : Cpu M σ) (registers : Registers) : Cpu M σ :=
  { cpu with registers, bypass := false }

end Cpu

/-- The instruction at an address as assembler text, and its length in bytes. -/
def Memory.disassemble {M : Type} [Memory M] (memory : M) (address : UInt16) : String × Nat :=
  let instruction := Cpu.Instruction.decode (Memory.peek memory address)
  let operand := instruction.mode.operandText address
    (Memory.peek memory (address + 1)) (Memory.peek memory (address + 2))
  let text := if operand.isEmpty then instruction.mnemonic
    else instruction.mnemonic ++ " " ++ operand
  (text, instruction.size)

/-- What a debugger shows of the processor. -/
structure Cpu.View where
  registers : Cpu.Registers
  nextInstruction : String
  hooked : Bool
  profiling : Bool
  deriving DecidableEq, Repr

/-- The present view of a processor. -/
def Cpu.view {M σ : Type} [Memory M] (cpu : Cpu M σ) : Cpu.View where
  registers := cpu.registers
  nextInstruction := (Memory.disassemble cpu.memory cpu.registers.pc).1
  hooked := cpu.hasHook
  profiling := cpu.profiling

end AppleOne
