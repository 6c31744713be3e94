import AppleOne.Proofs.Machine.Slice

/-!
# The control of a machine

What each action of a host does to the control of a machine. Most leave it alone. A
reset and a load move the program counter, drop a bypass and forget where the machine was
stopped; the others do what the operation of the debugger does that they stand for.

## Main results

* `Command.control_cases`: the commands that have to do with running and stopping, one by one.
* `Machine.control_handle_of_leavesControl`: the commands that leave the control alone.
* `Machine.control_reset`, `Machine.control_load`: moving the program counter from outside.
* `Machine.control_slice_cases`: a slice settles the control in one of two ways.
-/

namespace AppleOne

/-- The commands that have nothing to do with running and stopping. -/
def Command.leavesControl : Command → Bool
  | keyDown _ | getBreakpoints | getMemoryRange _ _ | saveState | setRubout _
  | setProfiling _ | setCycleAccurate _ | setDebuggerActive _ | debugInfo | getLogs => true
  | _ => false

/-- The commands one by one that have to do with running and stopping, and the others together. -/
@[elab_as_elim]
theorem Command.control_cases {motive : Command → Prop} (command : Command)
    (leaves : ∀ command, command.leavesControl = true → motive command) (step : motive .step)
    (pauseEmulation : motive .pauseEmulation) (resumeEmulation : motive .resumeEmulation)
    (setBreakpoint : ∀ address, motive (.setBreakpoint address))
    (clearBreakpoint : ∀ address, motive (.clearBreakpoint address))
    (clearAllBreakpoints : motive .clearAllBreakpoints)
    (runToAddress : ∀ target, motive (.runToAddress target))
    (loadState : ∀ document, motive (.loadState document)) (reset : motive .reset)
    (start : motive .start) : motive command := by
  cases command with
  | step => exact step
  | pauseEmulation => exact pauseEmulation
  | resumeEmulation => exact resumeEmulation
  | setBreakpoint address => exact setBreakpoint address
  | clearBreakpoint address => exact clearBreakpoint address
  | clearAllBreakpoints => exact clearAllBreakpoints
  | runToAddress target => exact runToAddress target
  | loadState document => exact loadState document
  | reset => exact reset
  | start => exact start
  | _ => exact leaves _ rfl

namespace Machine

@[simp] theorem control_withBus (machine : Machine) (bus : Bus) :
    (machine.withBus bus).control = machine.control := rfl

@[simp] theorem control_withRunner (machine : Machine) (runner : Runner Bus) :
    (machine.withRunner runner).control = runner.control := rfl

theorem control_pressKey (machine : Machine) (key : String) :
    (machine.pressKey key).control = machine.control := by
  obtain ⟨bus, hpressed⟩ := machine.exists_pressKey key
  rw [hpressed, control_withBus]

theorem control_setPaced (machine : Machine) (now : Nat) (enabled : Bool) :
    (machine.setPaced now enabled).control = machine.control := by
  unfold setPaced
  simp only [control_withBus, control_withRunner]
  simp only [Runner.control, Clock.running_setMode]
  rfl

theorem control_handle_of_leavesControl {command : Command} (h : command.leavesControl = true)
    (machine : Machine) (time : Time) :
    (machine.handle time command).2.control = machine.control := by
  cases command with
  | keyDown key => exact control_pressKey machine key
  | setCycleAccurate enabled => exact control_setPaced machine time.micros enabled
  | setProfiling enabled =>
    obtain ⟨counts, hswitched⟩ := machine.exists_handle_setProfiling time enabled
    exact (congrArg control hswitched :)
  | getBreakpoints | getMemoryRange _ _ | saveState | setRubout _ | setDebuggerActive _
  | debugInfo | getLogs => rfl
  | step | pauseEmulation | resumeEmulation | setBreakpoint _ | clearBreakpoint _
  | clearAllBreakpoints | runToAddress _ | loadState _ | reset | start => cases h

theorem control_resume (machine : Machine) (now : Nat) :
    (machine.resume now).control = (machine.runner.resume now).control := by
  unfold resume
  split
  · rfl
  · simp only [control_withRunner, Runner.control_resume]
    rfl

theorem control_seek (machine : Machine) (now : Nat) (target : UInt16) :
    (machine.seek now target).2.control = (machine.runner.seek now target).2.control := by
  unfold seek
  simp only
  split <;> rfl

/-- What a move of the program counter from outside does to the control. -/
def Moved (before after : Runner.Control) : Prop :=
  after =
    { before with
      bypass := false
      pc := after.pc
      debugger := { before.debugger with lastStop := none } }

theorem control_reset (machine : Machine) (now : Nat) :
    Moved machine.control (machine.reset now).control := rfl

/-- A load that succeeds moves the program counter, one that fails leaves the control. -/
theorem control_load (machine : Machine) (now : Nat) (document : Json) :
    (machine.load now document).1 = .ok () ∧
      Moved machine.control (machine.load now document).2.control ∨
    (∃ reason, (machine.load now document).1 = .error reason) ∧
      (machine.load now document).2.control = machine.control := by
  unfold load
  split
  · exact Or.inr ⟨⟨_, rfl⟩, rfl⟩
  · exact Or.inl ⟨rfl, rfl⟩

theorem control_handle_loadState (machine : Machine) (time : Time) (document : Json) :
    (machine.handle time (.loadState document)).2.control =
      (machine.load time.micros document).2.control :=
  congrArg control (machine.handle_loadState time document)

theorem control_onBank (machine : Machine) (id : String)
    (act : Bank → Except FlashRefusal Nat × Bank × List Note) :
    (machine.onBank id act).2.control = machine.control := by
  obtain ⟨bus, hacted⟩ := machine.exists_onBank id act
  rw [hacted, control_withBus]

/-- Flashing the ROM moves the program counter if the payload is accepted. -/
theorem control_flashRom (machine : Machine) (now : Nat) (payload : List UInt8) :
    (∃ stored, (machine.flashRom now payload).1 = .ok stored) ∧
      Moved machine.control (machine.flashRom now payload).2.control ∨
    (∃ reason, (machine.flashRom now payload).1 = .error reason) ∧
      (machine.flashRom now payload).2.control = machine.control := by
  have hflash := control_onBank machine romName (·.flash payload)
  unfold flashRom
  cases h : machine.flash romName payload with
  | mk result flashed =>
    rw [show (machine.onBank romName (·.flash payload)).2 = flashed from congrArg Prod.snd h]
      at hflash
    cases result with
    | ok stored => exact Or.inl ⟨⟨stored, rfl⟩, hflash ▸ control_reset flashed now⟩
    | error reason => exact Or.inr ⟨⟨reason, rfl⟩, hflash⟩

/-! ## Slices -/

theorem control_execute (machine : Machine) (now : Nat) :
    (machine.execute now).1.control =
      { hook := (machine.execute now).1.pair.1.hook
        memo := (machine.execute now).1.pair.1.memo
        bypass := (machine.execute now).1.pair.1.bypass
        pc := (machine.execute now).1.pair.1.registers.pc
        running := machine.control.running && (machine.execute now).1.lastSlice.refusedAt.isNone
        debugger := machine.control.debugger } := by
  simp only [control, Runner.control, running_execute, debugger_execute]
  rfl

/-- A slice of a machine that has the hook of its debugger and has noted nothing either
refuses nothing, moves the program counter and uses a bypass up; or it is refused its last
step, and is stopped there. -/
theorem control_slice_cases {machine : Machine}
    (hhook : machine.control.hook = machine.control.debugger.hook?)
    (hmemo : machine.control.memo = none) (now : Nat) :
    ((machine.execute now).1.lastSlice.refusedAt = none ∧
      (machine.slice now).1.filterMap Event.stop? = [] ∧
      ∃ bypass pc, (machine.slice now).2.1.control = { machine.control with bypass, pc } ∧
        (machine.visits now = [] → bypass = machine.control.bypass ∧ pc = machine.control.pc) ∧
        (machine.visits now ≠ [] → bypass = false)) ∨
    (∃ earlier visit event, machine.visits now = earlier ++ [visit] ∧
      machine.control.debugger.stopAt? visit.before.1.registers.pc = some event ∧
      (machine.execute now).1.lastSlice.refusedAt = some event.pc ∧
      (machine.slice now).1.filterMap Event.stop? = [event] ∧
      (machine.slice now).2.1.control = machine.control.stop event) := by
  have hwatched : Watched machine.control.debugger machine.pair := ⟨hhook, hmemo⟩
  rcases execute_cases hwatched now with ⟨hrefused, ⟨hhook', hmemo'⟩, hbypass⟩ |
    ⟨earlier, visit, event, hvisits, hstop, hbypass, hrefused, hpair⟩
  · left
    refine ⟨hrefused, ?_, _, (machine.execute now).1.pair.1.registers.pc, ?_, ?_, hbypass⟩
    · rw [slice_stops]
      exact congrArg Option.toList hmemo'
    · rw [control_slice, Runner.takeStop_of_memo_eq_none hmemo']
      refine (control_execute machine now).trans ?_
      rw [hhook', hmemo', hrefused, Option.isNone_none, Bool.and_true, ← hhook, ← hmemo]
    · intro hnil
      rw [pair_execute, hnil]
      exact ⟨rfl, rfl⟩
  · right
    -- the last visit was refused, and its stop event is still noted when the slice ends
    have hpc : event.pc = visit.before.1.registers.pc := Debugger.pc_of_stopAt? hstop
    have hcpu : (machine.execute now).1.runner.cpu = { visit.before.1 with memo := some event } :=
      congrArg Prod.fst hpair
    have hwatched' : Watched machine.control.debugger visit.before :=
      watched_before_visit hwatched hvisits
    refine ⟨earlier, visit, event, hvisits, hstop, hpc ▸ hrefused, ?_, ?_⟩
    · rw [slice_stops, hcpu]
      rfl
    · have hmemo' : (machine.execute now).1.runner.cpu.memo = some event := by rw [hcpu]
      have hhook' : (machine.execute now).1.runner.cpu.hook =
          (machine.execute now).1.runner.debugger.hook? := by
        rw [hcpu, debugger_execute]
        exact hwatched'.1
      rw [control_slice, Runner.control_takeStop hmemo' hhook', hcpu, hbypass, ← hpc]
      rfl

end Machine

end AppleOne
