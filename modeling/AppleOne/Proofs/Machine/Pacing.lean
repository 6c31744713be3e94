import AppleOne.Proofs.Debugger.Stops
import AppleOne.Proofs.Machine.Drive

/-!
# Pacing

A machine can be taken through its instructions one by one, in slices as long as the host
has time, or in slices that keep to the rate of the processor clock. The ways differ in
when an instruction is carried out, in what is reported, and in what the clock and the
debugger know afterwards. Where nothing can stop the machine they do not differ in what is
computed: that is decided by how many instructions were carried out.

The number has to be counted along the session, since how far a slice gets depends on the
time that has passed and on the mode the clock is in by then.

## Main definitions

* `Machine.Unhindered`: there is nothing that the machine has to stop at.
* `Machine.Action.paces`: the actions that carry out instructions, in any of the three ways,
  or leave what instructions work on alone.
* `Machine.executed`: how many instructions a session carries out.

## Main results

* `Machine.executed_slice`, `Machine.executed_steps`: how they are counted.
* `Machine.refusedAt_of_unhindered`, `Machine.unhindered_run`: nothing stops a slice, and
  nothing will.
* `Machine.core_run_of_paces`: the core after a session that carries out instructions.
* `Machine.pacing_does_not_matter`: any way to pace a machine comes to single steps.
-/

namespace AppleOne.Machine

/-- There is nothing that the machine has to stop at. -/
structure Unhindered (machine : Machine) : Prop where
  breakpoints : machine.runner.debugger.breakpoints = []
  target : machine.runner.debugger.target = none

/-- The actions that carry out instructions, and the commands that neither touch what
instructions work on nor ask for a stop. -/
def Action.paces : Action → Bool
  | .slice _ | .command _ .step => true
  | .command _ (.setBreakpoint _) | .command _ (.runToAddress _) => false
  | .command _ other => other.leavesCore
  | _ => false

/-- How many instructions a session carries out: as many as its slices report, and one for
each step command. -/
def executed (machine : Machine) (actions : List Action) : Nat :=
  (machine.script actions).count .instruction

theorem executed_cons (machine : Machine) (action : Action) (rest : List Action) :
    machine.executed (action :: rest) =
      (machine.stimuli action).count .instruction + (machine.act action).executed rest :=
  List.count_append

@[simp] theorem executed_slice (machine : Machine) (now : Nat) (rest : List Action) :
    machine.executed (.slice now :: rest) =
      (machine.slice now).2.1.lastSlice.instructions +
        (machine.slice now).2.1.executed rest := by
  rw [executed_cons]
  exact congrArg (· + _) List.count_replicate_self

@[simp] theorem executed_step (machine : Machine) (time : Time) (rest : List Action) :
    machine.executed (.command time .step :: rest) =
      (machine.act (.command time .step)).executed rest + 1 := by
  have hone : (machine.stimuli (.command time .step)).count .instruction = 1 :=
    List.count_singleton_self
  rw [executed_cons, hone, Nat.add_comm]

/-- Single steps are as many as there are commands. -/
theorem executed_steps (machine : Machine) (times : List Time) :
    machine.executed (times.map fun time => .command time .step) = times.length := by
  induction times generalizing machine with
  | nil => rfl
  | cons time rest ih => rw [List.map_cons, executed_step, ih, List.length_cons]

/-! ## What is computed -/

theorem drives_of_paces {action : Action} (h : action.paces = true) : action.drives = true := by
  cases action with
  | slice now => rfl
  | command time command => cases command <;> first | rfl | cases h
  | reset _ | flash _ _ | flashJson _ _ | flashRom _ _ => cases h

theorem eq_instruction_of_mem_stimuli {action : Action} (h : action.paces = true)
    {machine : Machine} {stimulus : Stimulus} (hmem : stimulus ∈ machine.stimuli action) :
    stimulus = .instruction := by
  cases action with
  | slice now => exact List.eq_of_mem_replicate hmem
  | command time command =>
    cases command with
    | step => exact List.mem_singleton.mp hmem
    | keyDown _ => cases h
    | _ => cases hmem
  | reset _ | flash _ _ | flashJson _ _ | flashRom _ _ => cases h

/-- Nothing but instructions is carried out. -/
theorem eq_instruction_of_mem_script {actions : List Action}
    (h : ∀ action ∈ actions, action.paces = true) {machine : Machine} {stimulus : Stimulus}
    (hmem : stimulus ∈ machine.script actions) : stimulus = .instruction := by
  induction actions generalizing machine with
  | nil => cases hmem
  | cons action rest ih =>
    obtain ⟨haction, hrest⟩ := List.forall_mem_cons.mp h
    rcases List.mem_append.mp hmem with hmem | hmem
    · exact eq_instruction_of_mem_stimuli haction hmem
    · exact ih hrest hmem

theorem script_of_paces {actions : List Action} (h : ∀ action ∈ actions, action.paces = true)
    (machine : Machine) :
    machine.script actions = List.replicate (machine.executed actions) .instruction := by
  have hall : ∀ stimulus ∈ machine.script actions, stimulus = .instruction :=
    fun _ => eq_instruction_of_mem_script h
  have hlength : machine.executed actions = (machine.script actions).length :=
    List.count_eq_length.mpr fun stimulus hmem => (hall stimulus hmem).symm
  rw [hlength]
  exact List.eq_replicate_of_mem hall

/-- What comes of a session that carries out instructions is decided by their number. -/
theorem core_run_of_paces {actions : List Action} (h : ∀ action ∈ actions, action.paces = true)
    (machine : Machine) :
    (machine.run actions).core = Core.advance^[machine.executed actions] machine.core := by
  have hdrives : ∀ action ∈ actions, action.drives = true :=
    fun action hmem => drives_of_paces (h action hmem)
  rw [core_run_of_drives hdrives, script_of_paces h, foldl_stimulate_replicate]

/-! ## What cannot be stopped -/

variable {machine : Machine}

theorem Unhindered.not_stopsAt (h : machine.Unhindered) (pc : UInt16) :
    ¬ machine.runner.debugger.StopsAt pc := by
  simp [Debugger.StopsAt, h.breakpoints, h.target]

/-- No slice is refused a step where there is nothing to stop at. -/
theorem refusedAt_of_unhindered (hcoherent : machine.control.Coherent) (h : machine.Unhindered)
    (now : Nat) : (machine.slice now).2.1.lastSlice.refusedAt = none := by
  rw [lastSlice_slice]
  rcases control_slice_cases hcoherent.hook hcoherent.memo now with
    ⟨hnone, -⟩ | ⟨_, visit, event, -, hstop, -⟩
  · exact hnone
  · exact absurd (Debugger.stopsAt_of_stopAt? hstop) (h.not_stopsAt _)

theorem unhindered_iff_breakpointSet :
    machine.Unhindered ↔ machine.breakpointSet = ∅ ∧ machine.runner.debugger.target = none :=
  ⟨fun h => ⟨List.toFinset_eq_empty_iff _ |>.mpr h.breakpoints, h.target⟩,
    fun h => ⟨List.toFinset_eq_empty_iff _ |>.mp h.1, h.2⟩⟩

/-- Carrying out instructions sets no breakpoint and no target. -/
theorem unhindered_act {action : Action} (hpaces : action.paces = true)
    (hcoherent : machine.control.Coherent) (h : machine.Unhindered) :
    (machine.act action).Unhindered := by
  -- what becomes of breakpoints and target is known for every action
  obtain ⟨hset, htarget⟩ := unhindered_iff_breakpointSet.mp h
  refine unhindered_iff_breakpointSet.mpr ⟨?_, (target_act hcoherent action).trans ?_⟩
  · rw [breakpointSet_act hcoherent, hset]
    cases action with
    | command time command => cases command <;> first | rfl | cases hpaces
    | _ => rfl
  · cases action with
    | slice now =>
      simp only [targetAfter, htarget, ite_self]
    | command time command => cases command <;> first | exact htarget | cases hpaces
    | _ => exact htarget

theorem unhindered_run {actions : List Action} (hpaces : ∀ action ∈ actions, action.paces = true)
    (hcoherent : machine.control.Coherent) (h : machine.Unhindered) :
    (machine.run actions).Unhindered := by
  induction actions generalizing machine with
  | nil => exact h
  | cons action rest ih =>
    obtain ⟨haction, hrest⟩ := List.forall_mem_cons.mp hpaces
    exact ih hrest (coherent_act hcoherent action) (unhindered_act haction hcoherent h)

/-! ## The three ways -/

variable {config : Config} {now : Nat} {fresh : Machine}

/-- How a machine is paced does not change what it computes. From a state with nothing to
stop at, let a session run slices in either mode at any times and single steps, and let it
pause, resume, switch modes and ask questions in between. If `n` instructions are carried
out by it then its core is the one after `n` step commands: registers, storage and adapter,
last accesses, profile, and screen with its version. No slice of it is stopped, so none
falls short of what its clock allows. -/
theorem pacing_does_not_matter (hbuilt : build? config now = .ok fresh) (actions : List Action)
    (hunhindered : (fresh.run actions).Unhindered) {session : List Action}
    (hpaces : ∀ action ∈ session, action.paces = true) {times : List Time}
    (hcount : (fresh.run actions).executed session = times.length) :
    ((fresh.run actions).run session).core =
      ((fresh.run actions).run (times.map fun time => .command time .step)).core ∧
    ∀ earlier time later, session = earlier ++ .slice time :: later →
      (((fresh.run actions).run earlier).slice time).2.1.lastSlice.refusedAt = none := by
  constructor
  · -- both sessions advance the same core, and equally often
    have hsteps : ∀ action ∈ times.map fun time => Action.command time .step,
        action.paces = true := by
      intro action hmem
      obtain ⟨time, -, rfl⟩ := List.mem_map.mp hmem
      rfl
    rw [core_run_of_paces hpaces, core_run_of_paces hsteps, executed_steps, hcount]
  · rintro earlier time later rfl
    have hcoherent := coherent_run hbuilt actions
    have hearlier : ((fresh.run actions).run earlier).Unhindered :=
      unhindered_run (fun action hmem => hpaces action (List.mem_append_left _ hmem)) hcoherent
        hunhindered
    refine refusedAt_of_unhindered ?_ hearlier time
    rw [← run_append]
    exact coherent_run hbuilt (actions ++ earlier)

/-- A machine that runs freely, then keeps to the rate of its clock, pauses and is stepped,
with a key waiting, has carried out nine instructions. -/
theorem pacing_does_not_matter_mixed :
    ∃ fresh, build? { batch := 2, clockRate := 1000 } 0 = .ok fresh ∧
      let machine := fresh.run [.command ⟨0, 0⟩ (.keyDown "A"), .command ⟨0, 0⟩ .start]
      (machine.run [.slice 1, .command ⟨2, 0⟩ (.setCycleAccurate true), .command ⟨3, 0⟩ .debugInfo,
          .slice 4000, .command ⟨5000, 5⟩ .pauseEmulation, .slice 6000,
          .command ⟨7000, 7⟩ .resumeEmulation, .slice 20000, .command ⟨20000, 20⟩ .saveState,
          .command ⟨20000, 20⟩ .step]).core =
        (machine.run (List.replicate 9 (.command ⟨0, 0⟩ .step))).core := by
  obtain ⟨fresh, hbuilt⟩ := exists_build? { batch := 2, clockRate := 1000 } 0
  have hrun : ((build? { batch := 2, clockRate := 1000 } 0).toOption.map fun fresh =>
      let machine := fresh.run [.command ⟨0, 0⟩ (.keyDown "A"), .command ⟨0, 0⟩ .start]
      (machine.executed [.slice 1, .command ⟨2, 0⟩ (.setCycleAccurate true),
          .command ⟨3, 0⟩ .debugInfo, .slice 4000, .command ⟨5000, 5⟩ .pauseEmulation,
          .slice 6000, .command ⟨7000, 7⟩ .resumeEmulation, .slice 20000,
          .command ⟨20000, 20⟩ .saveState, .command ⟨20000, 20⟩ .step],
        machine.runner.debugger.breakpoints, machine.runner.debugger.target)) =
      some (9, [], none) := by
    decide +kernel
  rw [hbuilt] at hrun
  obtain ⟨hcount, hstops⟩ := Prod.mk.inj (Option.some.inj hrun)
  obtain ⟨hbreakpoints, htarget⟩ := Prod.mk.inj hstops
  exact ⟨fresh, hbuilt, (pacing_does_not_matter hbuilt _ ⟨hbreakpoints, htarget⟩ (by decide)
    (hcount.trans (List.length_replicate (a := (⟨0, 0⟩ : Time))).symm)).1⟩

end AppleOne.Machine
