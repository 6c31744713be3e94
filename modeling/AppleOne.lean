import AppleOne.Log.Logger
import AppleOne.Machine.Text
import AppleOne.Proofs.Machine.Display
import AppleOne.Proofs.Machine.Keys
import AppleOne.Proofs.Machine.Mirror
import AppleOne.Proofs.Machine.Pacing
import AppleOne.Proofs.Machine.Rom
import AppleOne.Proofs.Cpu.Passage
import AppleOne.Proofs.Machine.Cycles
import AppleOne.Proofs.Wire.Text
import AppleOne.Proofs.Json.Text
import AppleOne.Proofs.Cpu.Interrupts
import AppleOne.Proofs.Machine.Reset
import AppleOne.Proofs.Wire.Command
import AppleOne.Proofs.Machine.Pushes
import AppleOne.Proofs.Cpu.Frame
import AppleOne.Proofs.Cpu.Timing
import AppleOne.Proofs.Cpu.Accesses
import AppleOne.Proofs.Cpu.LongArithmetic
import AppleOne.Proofs.Cpu.Stack
import AppleOne.Proofs.Cpu.Nesting
import AppleOne.Proofs.Pia.History
import AppleOne.Proofs.Bus.Dispatch
import AppleOne.Proofs.Screen.Lines
import AppleOne.Proofs.Screen.Buffer
import AppleOne.Proofs.Screen.Rubout
import AppleOne.Proofs.Cpu.Budget
import AppleOne.Proofs.Cpu.Asking
import AppleOne.Proofs.Machine.Clocked
import AppleOne.Proofs.Machine.Span
import AppleOne.Proofs.Bank.Narrowing
import AppleOne.Proofs.Machine.Snapshot
import AppleOne.Proofs.Log.Runs
import AppleOne.Proofs.Pia.Sides
import AppleOne.Proofs.Cpu.Profile
import AppleOne.Proofs.Cpu.Disassembly
import AppleOne.Proofs.Clock.SliceLength
