import AppleOne.Clock

/-!
# The debugger

The debugger stops a running machine at breakpoints and at a target address, once,
and moves it on by single steps. It watches the processor through its hook: before
every step the hook compares the program counter with the stop addresses, and on a
match refuses the step and notes a stop event, which the debugger then takes.

To get away from a breakpoint at which the machine stands stopped, the hook is passed
by for one step.

## Main definitions

* `Debugger`: breakpoints, target and run mode.
* `Runner`: a processor with its clock and its debugger, on which all commands act.
* `Runner.takeStop`: the stop event of the last slice, if there is one.
-/

namespace AppleOne

/-- Why a machine was stopped, and where. -/
inductive StopEvent where
  | breakpointHit (pc : UInt16)
  /-- The target address was reached. -/
  | cursorReached (pc : UInt16)
  deriving DecidableEq, Repr

namespace StopEvent

/-- Where the machine was stopped. -/
def pc : StopEvent → UInt16
  | breakpointHit pc | cursorReached pc => pc

/-- The text of a stop in the log. -/
def text : StopEvent → String
  | breakpointHit pc => "breakpoint hit at 0x" ++ Text.hexWord pc
  | cursorReached pc => "run-to reached 0x" ++ Text.hexWord pc

end StopEvent

/-- What the machine is doing, from the debugger's point of view. -/
inductive RunMode where
  | running
  | paused
  | steppingOnce
  | runToAddress (target : UInt16)
  deriving DecidableEq, Repr

/-- The state of the debugger. -/
structure Debugger where
  /-- The breakpoints in ascending order. -/
  breakpoints : List UInt16
  /-- The target address that is still to be reached. -/
  target : Option UInt16
  mode : RunMode
  /-- Where the last stop event left the machine. -/
  lastStop : Option UInt16
  deriving DecidableEq, Repr

/-- What a debugger shows of itself. -/
structure Debugger.View where
  mode : RunMode
  breakpoints : List UInt16
  target : Option UInt16
  deriving DecidableEq, Repr

namespace Debugger

/-- The name under which the debugger reports. -/
def logSource : String := "debugger"

/-- A message of the debugger. -/
def note (text : String) : Note := ⟨.info, logSource, text⟩

/-- A debugger without breakpoints, paused. -/
def initial : Debugger := ⟨[], none, .paused, none⟩

/-- Inserts an address into an ascending list, unless it is there. -/
def insertAddress (address : UInt16) : List UInt16 → List UInt16
  | [] => [address]
  | other :: rest =>
    if address < other then address :: other :: rest
    else if address = other then other :: rest
    else other :: insertAddress address rest

/-- Whether there is a breakpoint at an address. -/
def breaksAt (debugger : Debugger) (address : UInt16) : Bool :=
  debugger.breakpoints.contains address

/-- The hook that stops at breakpoints and at a target. At an address that is both the
target is reached. -/
def hook (breakpoints : List UInt16) (target : Option UInt16) : Cpu.Hook (Option StopEvent) :=
  fun pc hit =>
    if target = some pc then (false, some (.cursorReached pc))
    else if breakpoints.contains pc then (false, some (.breakpointHit pc))
    else (true, hit)

/-- The hook for the present stop addresses; none is needed if there are none. -/
def hook? (debugger : Debugger) : Option (Cpu.Hook (Option StopEvent)) :=
  if debugger.breakpoints.isEmpty && debugger.target.isNone then none
  else some (hook debugger.breakpoints debugger.target)

/-- The present view of the debugger. -/
def view (debugger : Debugger) : View :=
  ⟨debugger.mode, debugger.breakpoints, debugger.target⟩

end Debugger

/-- A processor with its clock and its debugger. The hooks of the processor note the
stop event that the debugger has still to take. -/
structure Runner (M : Type) where
  cpu : Cpu M (Option StopEvent)
  clock : Clock
  debugger : Debugger

namespace Runner

variable {M : Type} [Memory M]

/-- Keeps a message in the log of the memory. -/
def report (runner : Runner M) (note : Note) : Runner M :=
  { runner with cpu := runner.cpu.report note }

/-- Gives the processor the hook for the present stop addresses. -/
def refreshHook (runner : Runner M) : Runner M :=
  { runner with cpu := { runner.cpu with hook := runner.debugger.hook? } }

/-- Changes the breakpoints. -/
def withBreakpoints (runner : Runner M) (breakpoints : List UInt16) : Runner M :=
  { runner with debugger := { runner.debugger with breakpoints } }

/-- Adds a breakpoint. -/
def addBreakpoint (runner : Runner M) (address : UInt16) : Runner M :=
  if runner.debugger.breaksAt address then runner
  else (runner.withBreakpoints
    (Debugger.insertAddress address runner.debugger.breakpoints)).refreshHook

/-- Removes a breakpoint. -/
def removeBreakpoint (runner : Runner M) (address : UInt16) : Runner M :=
  if runner.debugger.breaksAt address then
    (runner.withBreakpoints (runner.debugger.breakpoints.erase address)).refreshHook
  else runner

/-- Removes all breakpoints. -/
def removeBreakpoints (runner : Runner M) : Runner M :=
  (runner.withBreakpoints []).refreshHook

/-- Pauses the clock and notes the mode. -/
def pause (runner : Runner M) : Runner M :=
  { runner with
    clock := runner.clock.pause
    debugger := { runner.debugger with mode := .paused } }

/-- Forgets where the machine was stopped. -/
def clearStop (runner : Runner M) : Runner M :=
  { runner with debugger := { runner.debugger with lastStop := none } }

/-- Goes through one step, breakpoint or not, and leaves the machine paused. -/
def step (runner : Runner M) : Cpu.Outcome × Runner M :=
  let runner := runner.pause.clearStop
  let (outcome, cpu) := runner.cpu.singleStep
  (outcome, { runner with cpu })

/-- Makes sure that the machine gets away from the breakpoint at which it was stopped,
if it is still there. -/
def leaveBreakpoint (runner : Runner M) : Runner M :=
  let pc := runner.cpu.registers.pc
  let leaving := runner.debugger.lastStop == some pc && runner.debugger.breaksAt pc
  let runner := runner.clearStop
  if leaving then { runner with cpu := runner.cpu.bypassOnce } else runner

/-- Lets the machine run on, towards its target if it has one. -/
def resume (runner : Runner M) (now : Nat) : Runner M :=
  let runner := runner.leaveBreakpoint
  let mode := match runner.debugger.target with
    | some target => RunMode.runToAddress target
    | none => .running
  { runner with
    clock := runner.clock.resume now
    debugger := { runner.debugger with mode } }

/-- Lets the machine run to an address. Gives back the address, or nothing if the
machine is already there. -/
def seek (runner : Runner M) (now : Nat) (target : UInt16) : Option UInt16 × Runner M :=
  if runner.cpu.registers.pc = target then
    (none, runner.report (Debugger.note ("already at target 0x" ++ Text.hexWord target)))
  else
    let runner := { runner with debugger := { runner.debugger with target := some target } }
    (some target, runner.refreshHook.resume now)

/-- Forgets the target, whether it was reached or not. -/
def dropTarget (runner : Runner M) : Runner M :=
  if runner.debugger.target.isSome then
    { runner with debugger := { runner.debugger with target := none } }.refreshHook
  else runner

/-- Takes the stop event that the hook noted, if there is one, and leaves the machine
paused where it was stopped. -/
def takeStop (runner : Runner M) : Option StopEvent × Runner M :=
  match runner.cpu.memo with
  | none => (none, runner)
  | some event =>
    let runner := { runner with cpu := { runner.cpu with memo := none } }.pause
    let runner := { runner with debugger :=
      { runner.debugger with lastStop := some event.pc } }.dropTarget
    (some event, runner.report (Debugger.note event.text))

/-- One slice of plain steps. -/
def slice (runner : Runner M) (now : Nat) : SliceReport × Runner M × Nat :=
  let (report, clock, cpu, now) := runner.clock.slice now Cpu.step runner.cpu
  (report, { runner with clock, cpu }, now)

end Runner

end AppleOne
