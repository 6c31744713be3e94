import AppleOne.Machine.Basic

/-!
# Handling commands

The answer of a machine to every command, and what the command does to it.

## Main definitions

* `Machine.handle`.
-/

namespace AppleOne

/-- What time it is: for pacing in microseconds since some moment, for save files in
seconds since the beginning of 1970. -/
structure Time where
  micros : Nat
  unixSeconds : UInt64
  deriving DecidableEq, Repr

namespace Machine

/-- A key press; keys that the machine does not have are reported. -/
def pressKey (machine : Machine) (key : String) : Machine :=
  match Keyboard.code? key with
  | some code => machine.withBus (machine.bus.onPia fun pia => ((), Keyboard.send code pia)).2
  | none => machine.note .info ("ignored key '" ++ key ++ "'")

/-- Changes the runner. -/
def withRunner (machine : Machine) (runner : Runner Bus) : Machine :=
  { machine with runner }

/-- One step of the processor with its effect on the screen, whether there is a
breakpoint or not. -/
def singleStep (machine : Machine) : Machine :=
  let (_, runner) := machine.runner.step
  let (bus, screen) := serve runner.cpu.memory machine.screen
  ({ machine with runner, screen } : Machine).withBus bus

/-- Lets the machine run, starting its clock if that was never done. -/
def resume (machine : Machine) (now : Nat) : Machine :=
  let machine :=
    if machine.runner.clock.started then machine
    else
      let (clock, note) := machine.runner.clock.start now
      (machine.withRunner { machine.runner with clock }).report note
  machine.withRunner (machine.runner.resume now)

/-- Changes the breakpoints and answers with the new ones. -/
def changeBreakpoints (machine : Machine) (change : Runner Bus → Runner Bus) :
    Response × Machine :=
  let machine := machine.withRunner (change machine.runner)
  (.breakpoints machine.runner.debugger.breakpoints, machine)

/-- Lets the machine run to an address. -/
def seek (machine : Machine) (now : Nat) (target : UInt16) : Response × Machine :=
  let (answer, runner) := machine.runner.seek now target
  let machine := machine.withRunner runner
  (.runToAddress answer, if answer.isSome then machine.restartTimer now else machine)

/-- Chooses the mode of pacing. -/
def setPaced (machine : Machine) (now : Nat) (enabled : Bool) : Machine :=
  let mode := if enabled then PacingMode.cycleAccurate else .freeRun
  let (clock, note) := machine.runner.clock.setMode mode now
  let machine := machine.withRunner { machine.runner with clock }
  machine.withBus (machine.bus.reportAny note)

/-- The save file of the machine. -/
def saveFile (machine : Machine) (time : Time) : SaveFile :=
  .stamp machine.snapshot time.unixSeconds

/-- Carries out a command. -/
def handle (machine : Machine) (time : Time) (command : Command) : Response × Machine :=
  let now := time.micros
  match command with
  | .keyDown key => (.ok, machine.pressKey key)
  | .step =>
    let machine := machine.singleStep.restartTimer now
    (.debug machine.view, machine)
  | .pauseEmulation =>
    (.status "paused", (machine.withRunner machine.runner.pause).restartTimer now)
  | .resumeEmulation | .start => (.status "running", (machine.resume now).restartTimer now)
  | .setBreakpoint address => machine.changeBreakpoints (·.addBreakpoint address)
  | .clearBreakpoint address => machine.changeBreakpoints (·.removeBreakpoint address)
  | .clearAllBreakpoints => machine.changeBreakpoints (·.removeBreakpoints)
  | .getBreakpoints => (.breakpoints machine.runner.debugger.breakpoints, machine)
  | .runToAddress target => machine.seek now target
  | .getMemoryRange start length => (.memory (machine.bus.peekSpan start length), machine)
  | .saveState => (.saveState (machine.saveFile time), machine)
  | .loadState document =>
    match machine.load now document with
    | (.ok (), machine) => (.ok, machine)
    | (.error reason, machine) => (.error reason.message, machine)
  | .setRubout enabled => (.ok, { machine with screen := machine.screen.setRubout enabled })
  | .setProfiling enabled => (.ok, machine.mapCpu (·.switchProfiling enabled))
  | .setCycleAccurate enabled => (.ok, machine.setPaced now enabled)
  | .setDebuggerActive active =>
    (.ok, ({ machine with watched := active } : Machine).restartTimer now)
  | .debugInfo => (.debug machine.view, machine)
  | .reset => (.ok, machine.reset now)
  | .getLogs =>
    let (entries, machine) := machine.drainLog
    (.logs entries, machine)

end Machine

end AppleOne
