import AppleOne.Bus
import AppleOne.Debugger
import AppleOne.Wire.State

/-!
# Documents for debuggers

What a debugger is shown of every component, and the log, as JSON.

## Main definitions

* `Machine.View`: everything at once.
* `encode` functions for the views of all components.
-/

namespace AppleOne

/-- What a debugger is shown of a machine. -/
structure Machine.View where
  cpu : Cpu.View
  pia : Pia.View
  bus : Bus.View
  clock : Clock.View
  debugger : Debugger.View
  lastSlice : SliceReport
  /-- The opcodes executed; empty if nobody counts them. -/
  profile : List Cpu.ProfileEntry

/-- The document of a log entry. -/
def Log.Entry.encode (entry : Log.Entry) : Json :=
  .object [("level", .string entry.note.level.name), ("source", .string entry.note.source),
    ("message", .string entry.note.text), ("count", .nat entry.count)]

/-- The document of an opcode count. -/
def Cpu.ProfileEntry.encode (entry : Cpu.ProfileEntry) : Json :=
  .object [("opcode", .byte entry.opcode),
    ("mnemonic", .string (Cpu.Instruction.decode entry.opcode).mnemonic),
    ("count", .word64 entry.count)]

/-- The document of the processor's view. -/
def Cpu.View.encode (view : Cpu.View) : Json :=
  .object [("registers", view.registers.encode), ("status", .byte view.registers.status),
    ("next_instruction", .string view.nextInstruction),
    ("hook_installed", .bool view.hooked), ("profiling", .bool view.profiling)]

/-- The document of the adapter's view. -/
def Pia.View.encode (view : Pia.View) : Json :=
  .object [("state", view.state.encode), ("irq_a", .bool view.interruptA),
    ("irq_b", .bool view.interruptB)]

/-- The document of an access. -/
def Transfer.encode (access : Transfer) : Json :=
  .object [("addr", .word access.address), ("value", .byte access.value)]

/-- The document of a mapping. -/
def Mapping.View.encode (view : Mapping.View) : Json :=
  .object [("name", .string view.name), ("start", .word view.start), ("end", .word view.last)]

/-- The document of the bus's view. -/
def Bus.View.encode (view : Bus.View) : Json :=
  .object [("last_read", .ofOption Transfer.encode view.lastRead),
    ("last_write", .ofOption Transfer.encode view.lastWrite),
    ("mappings", .ofList Mapping.View.encode view.mappings)]

/-- The document of the clock's view. -/
def Clock.View.encode (view : Clock.View) : Json :=
  .object [("paused", .bool view.paused), ("started", .bool view.started),
    ("mode", .string view.mode.name), ("cpu_hz", .word64 view.hz),
    ("total_cycles", .word64 view.cyclesRun),
    ("total_instructions", .word64 view.instructionsRun), ("slices", .word64 view.slices)]

/-- The document of what a slice did. -/
def SliceReport.encode (report : SliceReport) : Json :=
  .object [("instructions", .nat report.instructions), ("cycles", .nat report.cycles),
    ("halted_at", .ofOption .word report.refusedAt)]

/-- The document of a run mode. -/
def RunMode.encode (mode : RunMode) : Json :=
  match mode with
  | running => .tagged "mode" "target" "running" none
  | paused => .tagged "mode" "target" "paused" none
  | steppingOnce => .tagged "mode" "target" "stepping_once" none
  | runToAddress target => .tagged "mode" "target" "run_to_address" (some (.word target))

/-- The name of a stop event in documents. -/
def StopEvent.name : StopEvent → String
  | breakpointHit _ => "breakpoint_hit"
  | cursorReached _ => "cursor_reached"

/-- The document of a stop event on its own. -/
def StopEvent.encode (event : StopEvent) : Json :=
  .tagged "kind" "pc" event.name (some (.word event.pc))

/-- The document of the debugger's view. -/
def Debugger.View.encode (view : Debugger.View) : Json :=
  .object [("mode", view.mode.encode), ("breakpoints", .ofList .word view.breakpoints),
    ("run_to", .ofOption .word view.target)]

namespace Machine.View

/-- The member for the profile, which is left out if the profile is empty. -/
def encodeProfile (profile : List Cpu.ProfileEntry) : List (String × Json) :=
  if profile.isEmpty then [] else [("profile", .ofList Cpu.ProfileEntry.encode profile)]

/-- The document of all views. -/
def encode (view : Machine.View) : Json :=
  .object ([("cpu", view.cpu.encode), ("pia", view.pia.encode),
    ("bus", view.bus.encode), ("clock", view.clock.encode),
    ("debugger", view.debugger.encode), ("last_slice", view.lastSlice.encode)] ++
    encodeProfile view.profile)

end Machine.View

end AppleOne
