import AppleOne.Proofs.Debugger.Hook

/-!
# The control of a runner

Whether a runner runs and where it stops is decided by a small part of it: the hook, what
the hook has noted, the bypass, the program counter, whether the clock runs, and the
debugger. For every operation of the debugger one equation says what it does to this
part; nothing else of the operation matters to the laws of stopping.

## Main definitions

* `Runner.Control` and `Runner.control`.
* `Runner.Control.expectedMode`: the mode that goes with a clock and a target.

## Main results

* `Runner.control_pause`, `Runner.control_step`, `Runner.control_resume`,
  `Runner.control_seek`, `Runner.control_takeStop`: the effects of the operations.
-/

namespace AppleOne

/-! ## The clock -/

namespace Clock

@[simp] theorem running_pause (clock : Clock) : clock.pause.running = false := by
  simp [pause, running]

@[simp] theorem running_resume (clock : Clock) (now : Nat) : (clock.resume now).running = true :=
  rfl

@[simp] theorem running_setMode (clock : Clock) (mode : PacingMode) (now : Nat) :
    (clock.setMode mode now).1.running = clock.running := by
  unfold setMode
  split <;> rfl

@[simp] theorem running_initial (config : Config) (now : Nat) :
    (initial config now).1.running = false := by
  unfold initial
  split
  · rw [running_setMode]
    rfl
  · rfl

/-- A refused step pauses the clock. -/
@[simp] theorem running_account (clock : Clock) (report : SliceReport) :
    (clock.account report).running = (clock.running && report.refusedAt.isNone) := by
  cases hstarted : clock.started <;> cases hpaused : clock.paused <;>
    cases hrefused : report.refusedAt <;> simp [running, account, *]

end Clock

namespace Runner

/-- What decides whether a runner runs and where it stops. -/
structure Control where
  hook : Option (Cpu.Hook (Option StopEvent))
  memo : Option StopEvent
  bypass : Bool
  pc : UInt16
  running : Bool
  debugger : Debugger

/-- The mode that goes with a clock and a target. -/
def Control.expectedMode (running : Bool) (target : Option UInt16) : RunMode :=
  if running then
    match target with
    | some target => .runToAddress target
    | none => .running
  else .paused

section

variable {M : Type}

/-- The control of a runner. -/
def control (runner : Runner M) : Control where
  hook := runner.cpu.hook
  memo := runner.cpu.memo
  bypass := runner.cpu.bypass
  pc := runner.cpu.registers.pc
  running := runner.clock.running
  debugger := runner.debugger

variable {runner : Runner M}

theorem control_pause :
    runner.pause.control =
      { runner.control with
        running := false
        debugger := { runner.debugger with mode := .paused } } := by
  simp [control, pause]

/-- The control with other breakpoints and the hook for them. -/
def Control.rebreak (control : Control) (breakpoints : List UInt16) : Control :=
  { control with
    hook := { control.debugger with breakpoints }.hook?
    debugger := { control.debugger with breakpoints } }

/-- A breakpoint that is there need not be added, and the hook is left as it is. -/
theorem control_addBreakpoint (address : UInt16) :
    (runner.addBreakpoint address).control =
      if address ∈ runner.debugger.breakpoints then runner.control
      else runner.control.rebreak
        (Debugger.insertAddress address runner.debugger.breakpoints) := by
  unfold addBreakpoint
  simp only [Debugger.breaksAt_iff]
  split <;> rfl

/-- A breakpoint that is not there need not be removed, and the hook is left as it is. -/
theorem control_removeBreakpoint (address : UInt16) :
    (runner.removeBreakpoint address).control =
      if address ∈ runner.debugger.breakpoints then
        runner.control.rebreak (runner.debugger.breakpoints.erase address)
      else runner.control := by
  unfold removeBreakpoint
  simp only [Debugger.breaksAt_iff]
  split <;> rfl

/-- Whether the runner stands at a breakpoint at which it was stopped. -/
def standsStopped (runner : Runner M) : Bool :=
  runner.debugger.lastStop == some runner.cpu.registers.pc &&
    runner.debugger.breaksAt runner.cpu.registers.pc

theorem standsStopped_iff :
    runner.standsStopped = true ↔
      runner.debugger.lastStop = some runner.cpu.registers.pc ∧
        runner.cpu.registers.pc ∈ runner.debugger.breakpoints := by
  simp [standsStopped]

/-- Resuming passes the hook by once if the runner stands at a breakpoint at which it was
stopped. What the clock and the mode were does not matter. -/
theorem control_resume (now : Nat) :
    (runner.resume now).control =
      { runner.control with
        bypass := runner.cpu.bypass || runner.standsStopped
        running := true
        debugger := { runner.debugger with
          lastStop := none
          mode := Control.expectedMode true runner.debugger.target } } := by
  -- only the first part of resuming, leaving the breakpoint, asks for a bypass
  have hleave : runner.leaveBreakpoint.control =
      { runner.control with
        bypass := runner.cpu.bypass || runner.standsStopped
        debugger := { runner.debugger with lastStop := none } } := by
    unfold leaveBreakpoint
    cases h : runner.standsStopped with
    | true =>
      unfold standsStopped at h
      simp only [h, if_true, Bool.or_true]
      rfl
    | false =>
      unfold standsStopped at h
      simp only [h, Bool.false_eq_true, if_false, Bool.or_false]
      rfl
  unfold resume
  simp only [control, Control.mk.injEq] at hleave ⊢
  obtain ⟨hhook, hmemo, hbypass, hpc, -, hdebugger⟩ := hleave
  refine ⟨hhook, hmemo, hbypass, hpc, Clock.running_resume _ _, ?_⟩
  rw [hdebugger]
  rfl

end

variable {M : Type} [Memory M] {runner : Runner M}

/-- A single step leaves the runner paused and forgets where it was stopped. -/
theorem control_step :
    runner.step.2.control =
      { runner.control with
        bypass := false
        pc := runner.step.2.cpu.registers.pc
        running := false
        debugger := { runner.debugger with mode := .paused, lastStop := none } } := by
  unfold step
  simp only [Cpu.singleStep_eq]
  simp [control, pause, clearStop]

/-- Seeking an address where the runner is does nothing; otherwise the address becomes the
target, with the hook for it, and the runner resumes. -/
theorem control_seek (now : Nat) (target : UInt16) :
    (runner.seek now target).2.control =
      if runner.cpu.registers.pc = target then runner.control
      else
        { runner.control with
          hook := { runner.debugger with target := some target }.hook?
          bypass := runner.cpu.bypass || runner.standsStopped
          running := true
          debugger := { runner.debugger with
            target := some target
            lastStop := none
            mode := .runToAddress target } } := by
  unfold seek
  split
  · rfl
  · rw [control_resume]
    rfl

theorem takeStop_of_memo_eq_none (h : runner.cpu.memo = none) :
    runner.takeStop = (none, runner) := by
  simp [takeStop, h]

/-- The control of a runner that was stopped at an event and has taken it. -/
def Control.stop (control : Control) (event : StopEvent) : Control where
  hook := { control.debugger with target := none }.hook?
  memo := none
  bypass := false
  pc := event.pc
  running := false
  debugger := { control.debugger with
    target := none
    lastStop := some event.pc
    mode := .paused }

/-- Taking a stop event leaves the runner paused and without target. -/
theorem control_takeStop {event : StopEvent} (hmemo : runner.cpu.memo = some event)
    (hhook : runner.cpu.hook = runner.debugger.hook?) :
    runner.takeStop.2.control =
      { runner.control.stop event with
        bypass := runner.cpu.bypass
        pc := runner.cpu.registers.pc } := by
  obtain ⟨cpu, clock, debugger⟩ := runner
  obtain ⟨breakpoints, target, mode, lastStop⟩ := debugger
  simp only at hmemo hhook
  simp only [takeStop, hmemo]
  -- a target is dropped with its hook; without one the hook need not be changed
  cases target with
  | some target =>
    simp only [control, dropTarget, pause, refreshHook, report, Cpu.report, Option.isSome_some,
      if_true, Clock.running_pause]
    rfl
  | none => simpa [control, Control.stop, dropTarget, pause, report, Cpu.report] using hhook

end Runner

end AppleOne
