import AppleOne.Config
import AppleOne.Cpu.Basic
import AppleOne.Pacer

/-!
# The clock

The clock runs a machine in slices. It can be started, paused and resumed, and asks a
pacer how much each slice may run. What a step is it leaves to its caller, who hands
in a function from states to outcomes and states.

## Main definitions

* `Clock`, with `Clock.start`, `Clock.pause`, `Clock.resume` and `Clock.setMode`.
* `Clock.slice`: one slice.
-/

namespace AppleOne

/-- What a slice did. -/
structure SliceReport where
  instructions : Nat
  cycles : Nat
  /-- Where a step was refused, if one was. -/
  refusedAt : Option UInt16
  deriving DecidableEq, Repr

/-- The report of a slice that does nothing. -/
def SliceReport.empty : SliceReport := ⟨0, 0, none⟩

/-- The clock of a machine. -/
structure Clock where
  pacer : Pacer
  started : Bool
  paused : Bool
  hz : UInt64
  batch : UInt32
  sliceLength : Nat
  maxLag : Nat
  cyclesRun : UInt64
  instructionsRun : UInt64
  slices : UInt64
  deriving DecidableEq, Repr

namespace Clock

/-- The name under which the clock reports. -/
def logSource : String := "clock"

/-- A message of the clock. -/
def note (text : String) : Note := ⟨.info, logSource, text⟩

/-- The mode of pacing. -/
def mode (clock : Clock) : PacingMode := clock.pacer.mode

/-- A fresh pacer of the given mode. -/
def pacerFor (clock : Clock) (mode : PacingMode) (now : Nat) : Pacer :=
  match mode with
  | .freeRun => .unpaced clock.batch
  | .cycleAccurate => .cycleAccurate (.start clock.hz clock.sliceLength clock.maxLag now)

/-- Chooses the mode of pacing. Choosing the present mode again does nothing. -/
def setMode (clock : Clock) (mode : PacingMode) (now : Nat) : Clock × Option Note :=
  if mode = clock.mode then (clock, none)
  else ({ clock with pacer := clock.pacerFor mode now },
    some (note ("pacing set to " ++ mode.title)))

/-- A clock that runs freely and has not been started. -/
def unstarted (config : Config) : Clock where
  pacer := .unpaced config.batch
  started := false
  paused := false
  hz := config.clockRate
  batch := config.batch
  sliceLength := config.sliceLength
  maxLag := config.maxLag
  cyclesRun := 0
  instructionsRun := 0
  slices := 0

/-- The clock of a new machine. -/
def initial (config : Config) (now : Nat) : Clock × Option Note :=
  let clock := unstarted config
  if config.cycleAccurate then clock.setMode .cycleAccurate now else (clock, none)

/-- Whether slices are run. -/
def running (clock : Clock) : Bool := clock.started && !clock.paused

/-- Makes this moment the reference of pacing. -/
def rebase (clock : Clock) (now : Nat) : Clock :=
  { clock with pacer := clock.pacer.rebase now }

/-- Lets slices run from now on. -/
def resume (clock : Clock) (now : Nat) : Clock :=
  { clock.rebase now with started := true, paused := false }

/-- Starts the clock, and reports it. -/
def start (clock : Clock) (now : Nat) : Clock × Note :=
  (clock.resume now, note "started")

/-- Lets no slice run until the clock is resumed. -/
def pause (clock : Clock) : Clock :=
  { clock with paused := true }

/-- Goes through at most `steps` steps, until `limit` cycles have passed or a step is
refused. -/
def runSteps {σ : Type} (step : σ → Cpu.Outcome × σ) (limit : Nat) :
    Nat → SliceReport → σ → SliceReport × σ
  | 0, report, state => (report, state)
  | steps + 1, report, state =>
    if report.cycles < limit then
      match step state with
      | (.ran cycles, state) =>
        runSteps step limit steps
          { report with
            instructions := report.instructions + 1
            cycles := report.cycles + cycles.toNat } state
      | (.refused pc, state) => ({ report with refusedAt := some pc }, state)
    else (report, state)

/-- Accounts for a slice that was run. A refused step pauses the clock. -/
def account (clock : Clock) (report : SliceReport) : Clock :=
  { clock with
    pacer := clock.pacer.count report.cycles
    paused := clock.paused || report.refusedAt.isSome
    cyclesRun := clock.cyclesRun + report.cycles.toUInt64
    instructionsRun := clock.instructionsRun + report.instructions.toUInt64
    slices := clock.slices + 1 }

/-- One slice, if the clock runs. Gives back what it did, the clock and the state
after it, and the time at which it was run, which is later if the pacer had to wait. -/
def slice {σ : Type} (clock : Clock) (now : Nat) (step : σ → Cpu.Outcome × σ) (state : σ) :
    SliceReport × Clock × σ × Nat :=
  if clock.running then
    let (allowance, pacer, now) := clock.pacer.allowance now
    let (report, state) := runSteps step allowance.cycles allowance.instructions .empty state
    (report, { clock with pacer }.account report, state, now)
  else (.empty, clock, state, now)

/-- What a debugger shows of the clock. -/
structure View where
  paused : Bool
  started : Bool
  mode : PacingMode
  hz : UInt64
  cyclesRun : UInt64
  instructionsRun : UInt64
  slices : UInt64
  deriving DecidableEq, Repr

/-- The present view of the clock. -/
def view (clock : Clock) : View where
  paused := clock.paused
  started := clock.started
  mode := clock.mode
  hz := clock.hz
  cyclesRun := clock.cyclesRun
  instructionsRun := clock.instructionsRun
  slices := clock.slices

end Clock

end AppleOne
