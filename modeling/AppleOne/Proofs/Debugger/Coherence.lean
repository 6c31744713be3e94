import AppleOne.Proofs.Machine.Build
import AppleOne.Proofs.Machine.Control
import Mathlib.Data.Finset.Insert
import Mathlib.Data.Finset.Dedup
import Mathlib.Data.Finset.Erase

/-!
# The run state between actions

The run state of a machine is held in several places: the flags of the clock, the mode of
the debugger, the hook of the processor with its own copy of the stop addresses, and the
stop event that the hook has noted. Between two actions they agree: the mode follows from
the clock and the target, the hook is the one for the present stop addresses, and nothing
is left noted. The breakpoints are those that the commands of the session amount to.

A slice breaks the agreement when a step is refused, and restores it by taking the stop
event.

## Main definitions

* `Runner.Control.Coherent`: the agreement.
* `Machine.replay`: the set of breakpoints that a session amounts to.
* `Machine.RunState`: what a host can rely on between two actions.

## Main results

* `Machine.coherent_act`, `Machine.coherent_run`: the agreement holds throughout a session.
* `Machine.breakpoints_act`, `Machine.breakpoints_run`: the breakpoints after a session.
* `Machine.runState_run`: the run state in every reachable state.
-/

namespace AppleOne

/-! ## Ascending lists of addresses -/

namespace Debugger

theorem mem_insertAddress {address other : UInt16} {addresses : List UInt16} :
    other ∈ insertAddress address addresses ↔ other = address ∨ other ∈ addresses := by
  induction addresses with
  | nil => simp [insertAddress]
  | cons first rest ih =>
    unfold insertAddress
    split_ifs with hlt heq
    · simp
    · subst heq
      simp
    · simp only [List.mem_cons, ih]
      tauto

theorem pairwise_insertAddress (address : UInt16) {addresses : List UInt16}
    (h : addresses.Pairwise (· < ·)) : (insertAddress address addresses).Pairwise (· < ·) := by
  induction addresses with
  | nil => simp [insertAddress]
  | cons first rest ih =>
    obtain ⟨hfirst, hrest⟩ := List.pairwise_cons.mp h
    unfold insertAddress
    split_ifs with hlt heq
    · refine List.pairwise_cons.mpr ⟨?_, h⟩
      intro other hother
      rcases List.mem_cons.mp hother with rfl | hother
      · exact hlt
      · exact UInt16.lt_trans hlt (hfirst other hother)
    · exact h
    · refine List.pairwise_cons.mpr ⟨?_, ih hrest⟩
      intro other hother
      rcases mem_insertAddress.mp hother with rfl | hother
      · have hne : other.toNat ≠ first.toNat := fun h => heq (UInt16.toNat_inj.mp h)
        rw [UInt16.lt_iff_toNat_lt] at hlt ⊢
        omega
      · exact hfirst other hother

end Debugger

/-! ## The agreement -/

namespace Runner.Control

/-- The places that hold the run state agree. -/
structure Coherent (control : Control) : Prop where
  hook : control.hook = control.debugger.hook?
  memo : control.memo = none
  mode : control.debugger.mode = expectedMode control.running control.debugger.target
  ascending : control.debugger.breakpoints.Pairwise (· < ·)

theorem coherent_rebreak {control : Control} (h : control.Coherent) {breakpoints : List UInt16}
    (hascending : breakpoints.Pairwise (· < ·)) : (control.rebreak breakpoints).Coherent :=
  ⟨rfl, h.memo, h.mode, hascending⟩

theorem coherent_stop {control : Control} (h : control.Coherent) (event : StopEvent) :
    (control.stop event).Coherent :=
  ⟨rfl, rfl, rfl, h.ascending⟩

end Runner.Control

namespace Runner

variable {M : Type} {runner : Runner M}

theorem coherent_addBreakpoint (h : runner.control.Coherent) (address : UInt16) :
    (runner.addBreakpoint address).control.Coherent := by
  rw [control_addBreakpoint]
  split
  · exact h
  · exact Control.coherent_rebreak h (Debugger.pairwise_insertAddress address h.ascending)

theorem coherent_removeBreakpoint (h : runner.control.Coherent) (address : UInt16) :
    (runner.removeBreakpoint address).control.Coherent := by
  rw [control_removeBreakpoint]
  split
  · exact Control.coherent_rebreak h (h.ascending.sublist List.erase_sublist)
  · exact h

theorem coherent_pause (h : runner.control.Coherent) : runner.pause.control.Coherent := by
  rw [control_pause]
  exact ⟨h.hook, h.memo, rfl, h.ascending⟩

theorem coherent_resume (h : runner.control.Coherent) (now : Nat) :
    (runner.resume now).control.Coherent := by
  rw [control_resume]
  exact ⟨h.hook, h.memo, rfl, h.ascending⟩

theorem coherent_step [Memory M] (h : runner.control.Coherent) :
    runner.step.2.control.Coherent := by
  rw [control_step]
  exact ⟨h.hook, h.memo, rfl, h.ascending⟩

theorem coherent_seek [Memory M] (h : runner.control.Coherent) (now : Nat) (target : UInt16) :
    (runner.seek now target).2.control.Coherent := by
  rw [control_seek]
  split
  · exact h
  · exact ⟨rfl, h.memo, rfl, h.ascending⟩

end Runner

namespace Machine

variable {machine : Machine}

theorem coherent_moved {before after : Runner.Control} (hmoved : Moved before after)
    (h : before.Coherent) : after.Coherent := by
  rw [hmoved]
  exact ⟨h.hook, h.memo, h.mode, h.ascending⟩

theorem coherent_handle (h : machine.control.Coherent) (time : Time) (command : Command) :
    (machine.handle time command).2.control.Coherent := by
  cases command using Command.control_cases with
  | leaves command hleaves =>
    rw [control_handle_of_leavesControl hleaves]
    exact h
  | step => exact Runner.coherent_step h
  | pauseEmulation => exact Runner.coherent_pause h
  | resumeEmulation | start =>
    exact control_resume machine time.micros ▸ Runner.coherent_resume h time.micros
  | setBreakpoint address => exact Runner.coherent_addBreakpoint h address
  | clearBreakpoint address => exact Runner.coherent_removeBreakpoint h address
  | clearAllBreakpoints => exact Runner.Control.coherent_rebreak h List.Pairwise.nil
  | runToAddress target =>
    exact control_seek machine time.micros target ▸
      Runner.coherent_seek h time.micros target
  | loadState document =>
    rw [control_handle_loadState]
    -- a document that is refused changes nothing, any other one moves the program counter
    rcases control_load machine time.micros document with ⟨-, hmoved⟩ | ⟨-, hsame⟩
    · exact coherent_moved hmoved h
    · rw [hsame]
      exact h
  | reset => exact coherent_moved (control_reset machine time.micros) h

theorem coherent_slice (h : machine.control.Coherent) (now : Nat) :
    (machine.slice now).2.1.control.Coherent := by
  rcases control_slice_cases h.hook h.memo now with
    ⟨-, -, bypass, pc, hcontrol, -⟩ | ⟨_, _, event, -, -, -, -, hcontrol⟩
  · -- nothing was refused, and neither bypass nor program counter matters here
    rw [hcontrol]
    exact ⟨h.hook, h.memo, h.mode, h.ascending⟩
  · rw [hcontrol]
    exact Runner.Control.coherent_stop h event

/-- Every action keeps the agreement. -/
theorem coherent_act (h : machine.control.Coherent) (action : Action) :
    (machine.act action).control.Coherent := by
  cases action with
  | command time command => exact coherent_handle h time command
  | slice now => exact coherent_slice h now
  | reset now => exact coherent_moved (control_reset machine now) h
  | flash id payload => exact control_onBank machine id (·.flash payload) ▸ h
  | flashJson id payload => exact control_onBank machine id (·.flashJson payload) ▸ h
  | flashRom now payload =>
    rcases control_flashRom machine now payload with ⟨-, hmoved⟩ | ⟨-, hsame⟩
    · exact coherent_moved hmoved h
    · exact hsame ▸ h

variable {config : Config} {now : Nat} {fresh : Machine}

/-- A machine that was just built is paused, without breakpoints and without a hook. -/
theorem control_build? (hbuilt : build? config now = .ok fresh) :
    ∃ pc, fresh.control = ⟨none, none, false, pc, false, .initial⟩ := by
  obtain ⟨bus, -, rfl⟩ := eq_of_build? hbuilt
  refine ⟨(Cpu.powerOn bus (none : Option StopEvent)).registers.pc, ?_⟩
  simp only [control, Runner.control, Clock.running_initial]
  rfl

theorem coherent_build? (hbuilt : build? config now = .ok fresh) : fresh.control.Coherent := by
  obtain ⟨pc, hcontrol⟩ := control_build? hbuilt
  rw [hcontrol]
  exact ⟨rfl, rfl, rfl, List.Pairwise.nil⟩

/-- Throughout a session the agreement holds. -/
theorem coherent_run (hbuilt : build? config now = .ok fresh) (actions : List Action) :
    (fresh.run actions).control.Coherent :=
  run_induction (P := fun machine => machine.control.Coherent) (coherent_build? hbuilt)
    (fun _ action h => coherent_act h action) actions

/-! ## The breakpoints of a session -/

/-- What an action does to the set of breakpoints. -/
def Action.replay (breakpoints : Finset UInt16) : Action → Finset UInt16
  | .command _ (.setBreakpoint address) => insert address breakpoints
  | .command _ (.clearBreakpoint address) => breakpoints.erase address
  | .command _ .clearAllBreakpoints => ∅
  | _ => breakpoints

/-- The set of breakpoints that a session amounts to. -/
def replay (actions : List Action) : Finset UInt16 :=
  actions.foldl Action.replay ∅

/-- The set of breakpoints of a machine. -/
def breakpointSet (machine : Machine) : Finset UInt16 :=
  machine.control.debugger.breakpoints.toFinset

theorem breakpointSet_congr {other : Machine}
    (h : other.control.debugger.breakpoints = machine.control.debugger.breakpoints) :
    other.breakpointSet = machine.breakpointSet :=
  congrArg List.toFinset h

theorem breakpointSet_handle (h : machine.control.Coherent) (time : Time) (command : Command) :
    (machine.handle time command).2.breakpointSet =
      Action.replay machine.breakpointSet (.command time command) := by
  cases command using Command.control_cases with
  | leaves command hleaves =>
    have hcontrol := control_handle_of_leavesControl hleaves machine time
    rw [breakpointSet_congr (congrArg (·.debugger.breakpoints) hcontrol)]
    cases command <;> first | rfl | cases hleaves
  | setBreakpoint address =>
    have hcontrol : (machine.handle time (.setBreakpoint address)).2.control = _ :=
      Runner.control_addBreakpoint address
    rw [breakpointSet, hcontrol]
    ext other
    split_ifs with hmem
    · simp only [Action.replay, breakpointSet, Finset.mem_insert, List.mem_toFinset]
      exact (or_iff_right_of_imp fun heq => heq ▸ hmem).symm
    · simp only [Action.replay, breakpointSet, Finset.mem_insert, List.mem_toFinset]
      exact Debugger.mem_insertAddress
  | clearBreakpoint address =>
    have hcontrol : (machine.handle time (.clearBreakpoint address)).2.control = _ :=
      Runner.control_removeBreakpoint address
    -- erasing takes one occurrence away, and an ascending list has no other
    have hnodup : machine.control.debugger.breakpoints.Nodup :=
      h.ascending.imp UInt16.ne_of_lt
    rw [breakpointSet, hcontrol]
    ext other
    split_ifs with hmem
    · simp only [Action.replay, breakpointSet, Finset.mem_erase, List.mem_toFinset]
      exact hnodup.mem_erase_iff
    · simp only [Action.replay, breakpointSet, Finset.mem_erase, List.mem_toFinset]
      refine (and_iff_right_of_imp ?_).symm
      rintro hother rfl
      exact hmem hother
  | clearAllBreakpoints => rfl
  | step => exact breakpointSet_congr (congrArg (·.debugger.breakpoints) Runner.control_step)
  | pauseEmulation =>
    exact breakpointSet_congr (congrArg (·.debugger.breakpoints) Runner.control_pause)
  | resumeEmulation | start =>
    have hcontrol := (control_resume machine time.micros).trans (Runner.control_resume _)
    exact breakpointSet_congr (congrArg (·.debugger.breakpoints) hcontrol)
  | runToAddress target =>
    have hcontrol := (control_seek machine time.micros target).trans
      (Runner.control_seek time.micros target)
    refine breakpointSet_congr ((congrArg (·.debugger.breakpoints) hcontrol).trans ?_)
    split <;> rfl
  | loadState document =>
    refine breakpointSet_congr ?_
    rw [control_handle_loadState]
    rcases control_load machine time.micros document with ⟨-, hmoved⟩ | ⟨-, hsame⟩
    · rw [hmoved]
    · rw [hsame]
  | reset => rfl

theorem breakpointSet_slice (h : machine.control.Coherent) (now : Nat) :
    (machine.slice now).2.1.breakpointSet = machine.breakpointSet := by
  refine breakpointSet_congr ?_
  rcases control_slice_cases h.hook h.memo now with
    ⟨-, -, bypass, pc, hcontrol, -⟩ | ⟨_, _, event, -, -, -, -, hcontrol⟩
  · rw [hcontrol]
  · rw [hcontrol]
    rfl

/-- Only the three commands that set and clear breakpoints change their set. -/
theorem breakpointSet_act (h : machine.control.Coherent) (action : Action) :
    (machine.act action).breakpointSet = action.replay machine.breakpointSet := by
  cases action with
  | command time command => exact breakpointSet_handle h time command
  | slice now => exact breakpointSet_slice h now
  | reset now => rfl
  | flash id payload =>
    exact breakpointSet_congr (congrArg (·.debugger.breakpoints) (control_onBank machine id _))
  | flashJson id payload =>
    exact breakpointSet_congr (congrArg (·.debugger.breakpoints) (control_onBank machine id _))
  | flashRom now payload =>
    refine breakpointSet_congr ?_
    rcases control_flashRom machine now payload with ⟨-, hmoved⟩ | ⟨-, hsame⟩
    · simp only [act]
      rw [hmoved]
    · simp only [act]
      rw [hsame]

/-- The set of breakpoints is what the session amounts to. -/
theorem breakpointSet_run (hbuilt : build? config now = .ok fresh) (actions : List Action) :
    (fresh.run actions).breakpointSet = replay actions := by
  -- from the end, so that the last action meets a state that the session leads to
  induction actions using List.reverseRecOn with
  | nil =>
    obtain ⟨pc, hcontrol⟩ := control_build? hbuilt
    rw [run_nil, breakpointSet, hcontrol]
    rfl
  | append_singleton actions action ih =>
    rw [run_append, run_cons, run_nil, breakpointSet_act (coherent_run hbuilt actions), ih]
    simp [replay]

/-- A list of breakpoints in an answer is the one that the machine has from then on. -/
theorem eq_of_breakpoints {time : Time} {command : Command} {listed : List UInt16}
    (h : (machine.handle time command).1 = .breakpoints listed) :
    listed = (machine.handle time command).2.control.debugger.breakpoints := by
  cases command with
  | setBreakpoint _ | clearBreakpoint _ | clearAllBreakpoints | getBreakpoints =>
    exact (Response.breakpoints.inj h).symm
  | loadState document =>
    unfold handle at h
    simp only at h
    split at h <;> cases h
  | _ => cases h

/-! ## The run state -/

/-- What a host can rely on between two actions, after a session that amounts to a set of
breakpoints. -/
structure RunState (machine : Machine) (breakpoints : Finset UInt16) : Prop where
  running_iff : machine.runner.clock.running = true ↔
    machine.runner.debugger.mode = .running ∨
      ∃ target, machine.runner.debugger.mode = .runToAddress target
  mode_of_running : machine.runner.clock.running = true →
    machine.runner.debugger.mode =
      match machine.runner.debugger.target with
      | some target => .runToAddress target
      | none => .running
  not_stepping : machine.runner.debugger.mode ≠ .steppingOnce
  hooked_iff : machine.runner.cpu.hook.isSome = true ↔
    machine.runner.debugger.breakpoints ≠ [] ∨ machine.runner.debugger.target.isSome = true
  refuses_iff : ∀ ask, machine.runner.cpu.hook = some ask → ∀ pc noted,
    (ask pc noted).1 = false ↔
      pc ∈ machine.runner.debugger.breakpoints ∨ machine.runner.debugger.target = some pc
  nothing_noted : machine.runner.cpu.memo = none
  breakpoints_eq : machine.runner.debugger.breakpoints.toFinset = breakpoints

theorem runState_of_coherent (h : machine.control.Coherent) :
    machine.RunState machine.breakpointSet := by
  have hmode : machine.runner.debugger.mode = _ := h.mode
  have hhook : machine.runner.cpu.hook = machine.runner.debugger.hook? := h.hook
  refine ⟨?_, ?_, ?_, ?_, ?_, h.memo, rfl⟩
  · -- the mode is determined by the clock and the target
    rw [hmode]
    cases hrunning : machine.runner.clock.running <;>
      cases htarget : machine.runner.debugger.target <;>
      simp [Runner.Control.expectedMode, control, Runner.control, hrunning, htarget]
  · intro hrunning
    exact hmode.trans (if_pos hrunning)
  · rw [hmode]
    unfold Runner.Control.expectedMode
    split
    · split <;> simp
    · simp
  · rw [hhook, Option.isSome_iff_ne_none, ne_eq, Debugger.hook?_eq_none_iff, not_and_or,
      Option.isSome_iff_ne_none]
  · intro ask hask
    exact Debugger.hook?_refuses_iff (hhook ▸ hask)

/-- In every state that a session leads to, clock, mode, hook and breakpoints agree, and
every answer that lists the breakpoints lists those of the session in ascending order. -/
theorem runState_run (hbuilt : build? config now = .ok fresh) (actions : List Action) :
    (fresh.run actions).RunState (replay actions) ∧
    ∀ time command listed, ((fresh.run actions).handle time command).1 = .breakpoints listed →
      listed.Pairwise (· < ·) ∧
        listed.toFinset = replay (actions ++ [.command time command]) := by
  constructor
  · rw [← breakpointSet_run hbuilt actions]
    exact runState_of_coherent (coherent_run hbuilt actions)
  · intro time command listed hlisted
    obtain rfl := eq_of_breakpoints hlisted
    refine ⟨(coherent_handle (coherent_run hbuilt actions) time command).ascending, ?_⟩
    rw [← breakpointSet_run hbuilt, run_append]
    rfl

/-- A session that sets two breakpoints, clears one of them and starts to run. -/
theorem runState_run_started :
    ∃ fresh, build? {} 0 = .ok fresh ∧
      (fresh.run [.command ⟨0, 0⟩ (.setBreakpoint 0xFF10),
        .command ⟨0, 0⟩ (.setBreakpoint 0xFF00), .command ⟨1, 0⟩ .start, .slice 2,
        .command ⟨3, 0⟩ (.clearBreakpoint 0xFF10)]).RunState {0xFF00} := by
  obtain ⟨fresh, hbuilt⟩ := exists_build? {} 0
  exact ⟨fresh, hbuilt, (runState_run hbuilt _).1⟩

end Machine

end AppleOne
