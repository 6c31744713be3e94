import AppleOne.Proofs.Bus.Access
import AppleOne.Proofs.Cpu.Simulation
import AppleOne.Proofs.Machine.Slice

/-!
# What instructions work on

A machine step depends on the core of a machine alone, and changes nothing that matters to
later steps outside it: not the log, not the clock, and not what the debugger has asked
for. So a step is a function on cores. Slices and step commands, which reach it along
different ways, both come to that function, carried out as often as they report; of the
other commands only a few touch the core at all.

## Main definitions

* `Machine.Core.advance`: a machine step as a function on cores.
* `Machine.Core.onAdapter`: an action on the adapter as a function on cores.
* `Command.leavesCore`: the commands that leave the core alone.

## Main results

* `Machine.coreOf_advanceWithScreen`, `Machine.coreOf_stepWithScreen`: machine steps.
* `Machine.core_slice_iterate`: slices of any machine, stopped or not.
* `Command.core_cases`: the commands that do not leave the core alone, one by one.
* `Machine.core_singleStep`, `Machine.core_pressKey`, `Machine.core_handle_of_leavesCore`:
  commands.
-/

namespace AppleOne

/-! ## Buses that answer alike -/

namespace Bus

@[simp] theorem lastRead_reportAny (bus : Bus) (note : Option Note) :
    (bus.reportAny note).lastRead = bus.lastRead := by
  cases note <;> rfl

@[simp] theorem lastWrite_reportAny (bus : Bus) (note : Option Note) :
    (bus.reportAny note).lastWrite = bus.lastWrite := by
  cases note <;> rfl

/-- Buses with the same mappings answer alike. -/
theorem simulation_mappings :
    Memory.Simulation fun first second : Bus => first.mappings = second.mappings where
  read_value {first second} h address := by
    show (first.read address).1 = (second.read address).1
    simp only [read, h]
  read {first second} h address := by
    show (first.read address).2.mappings = (second.read address).2.mappings
    simp only [read, mappings_reportAny, h]
  write {first second} h address value := by
    show (first.write address value).mappings = (second.write address value).mappings
    simp only [write, mappings_reportAny, h]
  report h _ := h

/-- Buses that differ in their logs only. -/
structure Alike (first second : Bus) : Prop where
  mappings : first.mappings = second.mappings
  lastRead : first.lastRead = second.lastRead
  lastWrite : first.lastWrite = second.lastWrite

/-- The log has no influence on what a bus answers. -/
theorem simulation_alike : Memory.Simulation Alike where
  read_value h address := simulation_mappings.read_value h.mappings address
  read {first second} h address := by
    refine ⟨simulation_mappings.read h.mappings address, ?_, ?_⟩
    · have hvalue : (first.read address).1 = (second.read address).1 :=
        simulation_mappings.read_value h.mappings address
      simp only [Memory.read, read, lastRead_reportAny] at hvalue ⊢
      rw [hvalue]
    · simp only [Memory.read, read, lastWrite_reportAny, h.lastWrite]
  write h address value := by
    refine ⟨simulation_mappings.write h.mappings address value, ?_, ?_⟩
    · simp only [Memory.write, write, lastRead_reportAny, h.lastRead]
    · simp only [Memory.write, write, lastWrite_reportAny]
  report h _ := ⟨h.mappings, h.lastRead, h.lastWrite⟩

/-- An action on the adapter depends on the mappings alone. -/
theorem onPia_congr {α : Type} {first second : Bus} (h : first.mappings = second.mappings)
    (act : Pia → α × Pia) :
    (first.onPia act).1 = (second.onPia act).1 ∧
      (first.onPia act).2.mappings = (second.onPia act).2.mappings := by
  simp only [onPia, h, and_self]

end Bus

namespace Machine

/-! ## Machine steps -/

/-- The screen after it was handed a character, or nothing. -/
def shown (screen : Screen) (character : Option UInt8) : Screen :=
  match character with
  | some code => (screen.write code).2
  | none => screen

/-- Catching up is an action on the adapter, and the screen is handed what it gives. -/
theorem serve_eq (bus : Bus) (screen : Screen) :
    serve bus screen = ((bus.onPia servePia).2, shown screen (bus.onPia servePia).1.join) := by
  unfold serve
  cases h : (bus.onPia servePia).1.join <;> simp only [h, shown]

/-- A processor and a screen with a given core, without a hook and with an empty log. -/
def Core.pair (core : Core) : Pair :=
  ({ registers := core.registers
     memory :=
      { mappings := core.mappings
        lastRead := core.lastRead
        lastWrite := core.lastWrite
        log := Log.empty 0 }
     memo := none
     profiling := core.profiling
     counts := core.counts }, core.screen)

/-- A machine step as a function on cores. -/
def Core.advance (core : Core) : Core := coreOf (advanceWithScreen core.pair).2

/-- A machine step is an advance of the processor, after which the display is served. -/
theorem Core.advance_eq (core : Core) :
    core.advance =
      coreOf ({ core.pair.1.advance.2 with
        memory := (core.pair.1.memoryAfter.onPia servePia).2 },
        shown core.screen (core.pair.1.memoryAfter.onPia servePia).1.join) := by
  simp only [advance, advanceWithScreen, serve_eq, Cpu.advance_eq]
  rfl

/-- What a machine step does to the core depends on the core alone. -/
theorem coreOf_advanceWithScreen_congr {first second : Pair} (h : coreOf first = coreOf second) :
    coreOf (advanceWithScreen first).2 = coreOf (advanceWithScreen second).2 := by
  obtain ⟨cpu, screen⟩ := first
  obtain ⟨cpu', screen'⟩ := second
  simp only [coreOf, Core.mk.injEq] at h
  obtain ⟨hregisters, hmappings, hlastRead, hlastWrite, hprofiling, hcounts, rfl⟩ := h
  -- the same transaction is carried out on two buses that differ in their logs
  have hbus : Bus.Alike cpu.memory cpu'.memory := ⟨hmappings, hlastRead, hlastWrite⟩
  obtain ⟨hresult, -⟩ :=
    Cpu.Transaction.run_alike Bus.simulation_alike cpu.registers.step hbus
  have hmemory := Cpu.memoryAfter_alike Bus.simulation_alike hregisters hbus
  have hcountsAfter := Cpu.countsAfter_alike Bus.simulation_alike hregisters hbus hprofiling hcounts
  obtain ⟨hcharacter, hserved⟩ := Bus.onPia_congr hmemory.mappings servePia
  simp only [advanceWithScreen, Cpu.advance_eq, serve_eq, coreOf, Core.mk.injEq]
  refine ⟨?_, hserved, hmemory.lastRead, hmemory.lastWrite, hprofiling, hcountsAfter, ?_⟩
  · rw [hresult, hregisters]
  · rw [hcharacter]

/-- A machine step does to the core what the function on cores does. -/
theorem coreOf_advanceWithScreen (pair : Pair) :
    coreOf (advanceWithScreen pair).2 = (coreOf pair).advance :=
  coreOf_advanceWithScreen_congr rfl

/-- A machine step is carried out, or it is refused and nothing but what the hook notes is
changed. -/
theorem stepWithScreen_cases (pair : Pair) :
    ∃ memo,
      stepWithScreen pair = advanceWithScreen ({ pair.1 with bypass := false, memo }, pair.2) ∨
      stepWithScreen pair = (.refused pair.1.registers.pc, { pair.1 with memo }, pair.2) := by
  obtain ⟨cpu, screen⟩ := pair
  obtain ⟨memo, hstep | hstep⟩ := cpu.step_cases
  · exact ⟨memo, .inl (stepWithScreen_of_advance hstep)⟩
  · refine ⟨memo, .inr ?_⟩
    simp only [stepWithScreen, hstep]
    rfl

/-- A step is carried out, or it leaves the core alone. What the hook is, and whether it is
passed by, decides between the two and has no other influence. -/
theorem coreOf_stepWithScreen (pair : Pair) :
    coreOf (stepWithScreen pair).2 =
      if (stepWithScreen pair).1.wasRefused then coreOf pair else (coreOf pair).advance := by
  obtain ⟨memo, hstep | hstep⟩ := stepWithScreen_cases pair
  · rw [hstep, advanceWithScreen_wasRefused, if_neg Bool.false_ne_true, coreOf_advanceWithScreen]
    rfl
  · -- a refused step changes what the hook has noted, which is not in the core
    rw [hstep]
    rfl

/-! ## Slices -/

/-- A slice does to the core what as many steps do as it reports instructions, and nothing
else, whether it ends with a stop or not. -/
theorem core_slice_iterate (machine : Machine) (now : Nat) :
    (machine.slice now).2.1.core =
      Core.advance^[(machine.slice now).2.1.lastSlice.instructions] machine.core := by
  rw [core_slice, core, pair_execute, lastSlice_slice, lastSlice_execute]
  exact Clock.endOf_sliceVisits_iterate coreOf_stepWithScreen machine.runner.clock now

/-! ## Commands -/

/-- An action on the adapter as a function on cores. -/
def Core.onAdapter (core : Core) (act : Pia → Pia) : Core :=
  { core with mappings := (core.pair.1.memory.onPia fun pia => ((), act pia)).2.mappings }

/-- A step command goes through one machine step, breakpoint or not. -/
theorem core_singleStep (machine : Machine) : machine.singleStep.core = machine.core.advance := by
  obtain ⟨⟨cpu, clock, debugger⟩, screen, config, watched, timer, reported, lastSlice⟩ := machine
  have hcore : coreOf ({ cpu with bypass := false }, screen) = coreOf (cpu, screen) := rfl
  refine Eq.trans ?_ ((coreOf_advanceWithScreen ({ cpu with bypass := false }, screen)).trans
    (congrArg Core.advance hcore))
  simp only [singleStep, Runner.step, Runner.pause, Runner.clearStop, Cpu.singleStep_eq]
  rfl

/-- A key press is an action on the adapter if the machine has the key. -/
theorem core_pressKey (machine : Machine) (key : String) :
    (machine.pressKey key).core =
      match Keyboard.code? key with
      | some code => machine.core.onAdapter (Keyboard.send code)
      | none => machine.core := by
  unfold pressKey
  cases Keyboard.code? key <;> rfl

/-- Whether the bypass is pending does not matter to the core. -/
theorem core_withRunner_resume (machine : Machine) (runner : Runner Bus) (now : Nat) :
    (machine.withRunner (runner.resume now)).core = (machine.withRunner runner).core := by
  simp only [core, pair, withRunner, Runner.resume, Runner.leaveBreakpoint]
  split <;> rfl

theorem core_resume (machine : Machine) (now : Nat) : (machine.resume now).core = machine.core := by
  unfold resume
  split
  · exact core_withRunner_resume machine machine.runner now
  · exact core_withRunner_resume _ _ now

theorem core_seek (machine : Machine) (now : Nat) (target : UInt16) :
    (machine.seek now target).2.core = machine.core := by
  have hseek : (machine.seek now target).2.core =
      (machine.withRunner (machine.runner.seek now target).2).core := by
    unfold seek
    simp only
    split <;> rfl
  rw [hseek]
  unfold Runner.seek
  split
  · rfl
  · exact core_withRunner_resume machine _ now

theorem core_setPaced (machine : Machine) (now : Nat) (enabled : Bool) :
    (machine.setPaced now enabled).core = machine.core := by
  simp only [setPaced, core, coreOf, pair, withBus, Bus.mappings_reportAny, Bus.lastRead_reportAny,
    Bus.lastWrite_reportAny]
  rfl

end Machine

/-- The commands that leave what instructions work on alone. -/
def Command.leavesCore : Command → Bool
  | keyDown _ | step | loadState _ | setRubout _ | setProfiling _ | reset => false
  | _ => true

/-- The commands one by one that do not leave the core alone, and the others together. -/
@[elab_as_elim]
theorem Command.core_cases {motive : Command → Prop} (command : Command)
    (leaves : ∀ command, command.leavesCore = true → motive command)
    (keyDown : ∀ key, motive (.keyDown key)) (step : motive .step)
    (loadState : ∀ document, motive (.loadState document))
    (setRubout : ∀ enabled, motive (.setRubout enabled))
    (setProfiling : ∀ enabled, motive (.setProfiling enabled)) (reset : motive .reset) :
    motive command := by
  cases command with
  | keyDown key => exact keyDown key
  | step => exact step
  | loadState document => exact loadState document
  | setRubout enabled => exact setRubout enabled
  | setProfiling enabled => exact setProfiling enabled
  | reset => exact reset
  | _ => exact leaves _ rfl

namespace Machine

theorem core_handle_of_leavesCore {command : Command} (h : command.leavesCore = true)
    (machine : Machine) (time : Time) : (machine.handle time command).2.core = machine.core := by
  cases command with
  | resumeEmulation | start => exact core_resume machine time.micros
  | setBreakpoint address =>
    simp only [handle, changeBreakpoints, Runner.addBreakpoint]
    split <;> rfl
  | clearBreakpoint address =>
    simp only [handle, changeBreakpoints, Runner.removeBreakpoint]
    split <;> rfl
  | runToAddress target => exact core_seek machine time.micros target
  | setCycleAccurate enabled => exact core_setPaced machine time.micros enabled
  | pauseEmulation | clearAllBreakpoints | getBreakpoints | getMemoryRange _ _ | saveState
  | setDebuggerActive _ | debugInfo | getLogs => rfl
  | keyDown _ | step | loadState _ | setRubout _ | setProfiling _ | reset => cases h

end Machine

end AppleOne
