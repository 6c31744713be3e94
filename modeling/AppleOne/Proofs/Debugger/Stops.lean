import AppleOne.Proofs.Debugger.Coherence

/-!
# Stop addresses are not run over

A running machine stops at breakpoints and at its target. There is one exception: a
machine that stands at the breakpoint where it was stopped goes on from there once it is
told to. Three things decide whether the exception applies: the bypass of the processor,
the address that the debugger remembers, and the breakpoints. They are changed by
different actions, so what they mean has to be said in terms of what has happened to the
machine.

The invariant is that a pending bypass and a remembered address both mean that the last
thing to happen was a stop at the present program counter, and that this address is not
the target. A machine that runs remembers no address, so moving the program counter by a
slice does no harm; every other action that moves it forgets both.

## Main definitions

* `Machine.Occurrence` and `Machine.history`: what happens to a machine in a session.
* `Machine.StoppedAt`: the last occurrence was a stop at an address.
* `Machine.Standing`: the invariant.

## Main results

* `Machine.standing_act`, `Machine.standing_run`: the invariant holds throughout a session.
* `Machine.target_act`: what becomes of the target.
* `Machine.stop_addresses_not_run_over`: the law of stopping.
-/

namespace AppleOne.Machine

/-! ## What happens in a session -/

/-- What can happen to a machine, as far as stopping is concerned. -/
inductive Occurrence where
  /-- A step was carried out. -/
  | stepped
  | stopped (event : StopEvent)
  | reset
  | loaded
  deriving DecidableEq, Repr

/-- What happens in a slice: its steps, and the stop event that it reports. -/
def sliceOccurrences (machine : Machine) (now : Nat) : List Occurrence :=
  ((machine.visits now).filter (!·.outcome.wasRefused)).map (fun _ => .stepped) ++
    ((machine.slice now).1.filterMap Event.stop?).map .stopped

/-- What happens in an action. -/
def occurrences (machine : Machine) : Action → List Occurrence
  | .command _ .step => [.stepped]
  | .command _ .reset => [.reset]
  | .command time (.loadState document) =>
    match (machine.load time.micros document).1 with
    | .ok () => [.loaded]
    | .error _ => []
  | .slice now => machine.sliceOccurrences now
  | .reset _ => [.reset]
  | .flashRom now payload =>
    match (machine.flashRom now payload).1 with
    | .ok _ => [.reset]
    | .error _ => []
  | _ => []

/-- What happens in a session, in order. -/
def history (machine : Machine) : List Action → List Occurrence
  | [] => []
  | action :: rest => machine.occurrences action ++ (machine.act action).history rest

theorem history_concat (machine : Machine) (actions : List Action) (action : Action) :
    machine.history (actions ++ [action]) =
      machine.history actions ++ (machine.run actions).occurrences action := by
  induction actions generalizing machine with
  | nil => simp [history]
  | cons first rest ih => simp [history, ih]

/-- The last thing that happened was a stop at an address. -/
def StoppedAt (history : List Occurrence) (pc : UInt16) : Prop :=
  ∃ event, history.getLast? = some (.stopped event) ∧ event.pc = pc

/-! ## The invariant -/

/-- What a bypass and a remembered address mean. -/
structure Standing (history : List Occurrence) (control : Runner.Control) : Prop where
  lastStop : ∀ address, control.debugger.lastStop = some address →
    address = control.pc ∧ StoppedAt history control.pc ∧
      control.debugger.target ≠ some control.pc
  bypass : control.bypass = true →
    StoppedAt history control.pc ∧ control.debugger.target ≠ some control.pc
  running : control.running = true → control.debugger.lastStop = none

variable {history : List Occurrence} {control : Runner.Control}

/-- With nothing remembered and no bypass, anything may have happened. -/
theorem standing_of_forgotten (hbypass : control.bypass = false)
    (hlastStop : control.debugger.lastStop = none) : Standing history control where
  lastStop _ h := by simp [hlastStop] at h
  bypass h := by simp [hbypass] at h
  running _ := hlastStop

theorem standing_of_moved {before : Runner.Control} (hmoved : Moved before control) :
    Standing history control := by
  rw [hmoved]
  exact standing_of_forgotten rfl rfl

theorem standing_rebreak (h : Standing history control) (breakpoints : List UInt16) :
    Standing history (control.rebreak breakpoints) :=
  ⟨h.lastStop, h.bypass, h.running⟩

/-- After a stop, that the machine was stopped is what happened last. -/
theorem standing_stop (control : Runner.Control) (event : StopEvent) :
    Standing (history ++ [.stopped event]) (control.stop event) where
  lastStop address h := by
    obtain rfl := Option.some.inj h
    exact ⟨rfl, ⟨event, by simp, rfl⟩, by simp [Runner.Control.stop]⟩
  bypass h := by cases h
  running h := by cases h

section Runner

variable {M : Type} {runner : Runner M}

theorem standing_addBreakpoint (h : Standing history runner.control) (address : UInt16) :
    Standing history (runner.addBreakpoint address).control := by
  rw [Runner.control_addBreakpoint]
  split
  · exact h
  · exact standing_rebreak h _

theorem standing_removeBreakpoint (h : Standing history runner.control) (address : UInt16) :
    Standing history (runner.removeBreakpoint address).control := by
  rw [Runner.control_removeBreakpoint]
  split
  · exact standing_rebreak h _
  · exact h

theorem standing_pause (h : Standing history runner.control) :
    Standing history runner.pause.control := by
  rw [Runner.control_pause]
  exact ⟨h.lastStop, h.bypass, by simp⟩

/-- A bypass that is pending, or that resuming asks for, means a stop here. -/
theorem stoppedAt_of_leaving (h : Standing history runner.control)
    (hleaving : (runner.cpu.bypass || runner.standsStopped) = true) :
    StoppedAt history runner.control.pc ∧
      runner.control.debugger.target ≠ some runner.control.pc := by
  rcases Bool.or_eq_true_iff.mp hleaving with hbypass | hstands
  · exact h.bypass hbypass
  · -- resuming asks for a bypass only where the debugger remembers a stop
    exact (h.lastStop _ (Runner.standsStopped_iff.mp hstands).1).2

theorem standing_resume (h : Standing history runner.control) (now : Nat) :
    Standing history (runner.resume now).control := by
  rw [Runner.control_resume]
  exact ⟨by simp, fun hleaving => stoppedAt_of_leaving h hleaving, fun _ => rfl⟩

theorem standing_seek [Memory M] (h : Standing history runner.control) (now : Nat)
    (target : UInt16) : Standing history (runner.seek now target).2.control := by
  rw [Runner.control_seek]
  split
  · exact h
  · next hpc =>
    refine ⟨by simp, fun hleaving => ⟨(stoppedAt_of_leaving h hleaving).1, ?_⟩, fun _ => rfl⟩
    intro htarget
    exact hpc (Option.some.inj htarget).symm

theorem standing_step [Memory M] : Standing history runner.step.2.control := by
  rw [Runner.control_step]
  exact standing_of_forgotten rfl rfl

end Runner

variable {machine : Machine}

theorem standing_handle (h : Standing history machine.control) (time : Time) (command : Command) :
    Standing (history ++ machine.occurrences (.command time command))
      (machine.handle time command).2.control := by
  cases command using Command.control_cases with
  | leaves command hleaves =>
    have hnothing : machine.occurrences (.command time command) = [] := by
      -- what leaves the control alone is no occurrence
      cases command <;> first | rfl | cases hleaves
    rw [control_handle_of_leavesControl hleaves, hnothing, List.append_nil]
    exact h
  | step => exact standing_step
  | pauseEmulation => exact (List.append_nil history).symm ▸ standing_pause h
  | resumeEmulation | start =>
    refine (List.append_nil history).symm ▸ ?_
    exact control_resume machine time.micros ▸ standing_resume h time.micros
  | setBreakpoint address =>
    exact (List.append_nil history).symm ▸ standing_addBreakpoint h address
  | clearBreakpoint address =>
    exact (List.append_nil history).symm ▸ standing_removeBreakpoint h address
  | clearAllBreakpoints => exact (List.append_nil history).symm ▸ standing_rebreak h []
  | runToAddress target =>
    refine (List.append_nil history).symm ▸ ?_
    exact control_seek machine time.micros target ▸ standing_seek h time.micros target
  | loadState document =>
    rw [control_handle_loadState]
    rcases control_load machine time.micros document with
      ⟨-, hmoved⟩ | ⟨⟨reason, hanswer⟩, hsame⟩
    · exact standing_of_moved hmoved
    · simp only [occurrences, hanswer, List.append_nil, hsame]
      exact h
  | reset => exact standing_of_moved (control_reset machine time.micros)

theorem standing_slice (hcoherent : machine.control.Coherent)
    (h : Standing history machine.control) (now : Nat) :
    Standing (history ++ machine.sliceOccurrences now) (machine.slice now).2.1.control := by
  unfold sliceOccurrences
  rcases control_slice_cases hcoherent.hook hcoherent.memo now with
    ⟨-, hstops, bypass, pc, hcontrol, hnil, hcons⟩ | ⟨_, _, event, -, -, -, hstops, hcontrol⟩
  · rw [hstops, hcontrol]
    by_cases hvisits : machine.visits now = []
    · obtain ⟨rfl, rfl⟩ := hnil hvisits
      rw [hvisits]
      simpa using h
    · -- the clock runs, so nothing is remembered, and the first step used a bypass up
      have hrunning : machine.control.running = true := by
        by_contra hpaused
        refine hvisits (Clock.sliceVisits_of_not_running ?_ now _ _)
        exact Bool.eq_false_iff.mpr hpaused
      exact standing_of_forgotten (hcons hvisits) (h.running hrunning)
  · rw [hstops, hcontrol, List.map_cons, List.map_nil, ← List.append_assoc]
    exact standing_stop machine.control event

/-- Every action keeps the invariant. -/
theorem standing_act (hcoherent : machine.control.Coherent)
    (h : Standing history machine.control) (action : Action) :
    Standing (history ++ machine.occurrences action) (machine.act action).control := by
  cases action with
  | command time command => exact standing_handle h time command
  | slice now => exact standing_slice hcoherent h now
  | reset now => exact standing_of_moved (control_reset machine now)
  | flash id payload =>
    refine (List.append_nil history).symm ▸ ?_
    exact control_onBank machine id (·.flash payload) ▸ h
  | flashJson id payload =>
    refine (List.append_nil history).symm ▸ ?_
    exact control_onBank machine id (·.flashJson payload) ▸ h
  | flashRom now payload =>
    rcases control_flashRom machine now payload with ⟨-, hmoved⟩ | ⟨⟨reason, hanswer⟩, hsame⟩
    · exact standing_of_moved hmoved
    · simp only [occurrences, act, hanswer, List.append_nil, hsame]
      exact h

variable {config : Config} {now : Nat} {fresh : Machine}

/-- Throughout a session the invariant holds. -/
theorem standing_run (hbuilt : build? config now = .ok fresh) (actions : List Action) :
    Standing (fresh.history actions) (fresh.run actions).control := by
  induction actions using List.reverseRecOn with
  | nil =>
    obtain ⟨pc, hcontrol⟩ := control_build? hbuilt
    rw [run_nil, hcontrol]
    exact standing_of_forgotten rfl rfl
  | append_singleton actions action ih =>
    rw [history_concat, run_append]
    exact standing_act (coherent_run hbuilt actions) ih action

/-! ## The target -/

/-- What becomes of the target in an action: a stop event removes it, seeking another
address than the present one replaces it, and everything else keeps it. -/
def targetAfter (machine : Machine) : Action → Option UInt16
  | .slice now =>
    if ((machine.slice now).1.filterMap Event.stop?).isEmpty then machine.runner.debugger.target
    else none
  | .command _ (.runToAddress address) =>
    if machine.runner.cpu.registers.pc = address then machine.runner.debugger.target
    else some address
  | _ => machine.runner.debugger.target

theorem target_handle (machine : Machine) (time : Time) (command : Command) :
    (machine.handle time command).2.control.debugger.target =
      machine.targetAfter (.command time command) := by
  cases command using Command.control_cases with
  | leaves command hleaves =>
    rw [control_handle_of_leavesControl hleaves]
    cases command <;> first | rfl | cases hleaves
  | step =>
    have hcontrol : machine.runner.step.2.control = _ := Runner.control_step
    exact congrArg (·.debugger.target) hcontrol
  | pauseEmulation => exact congrArg (·.debugger.target) Runner.control_pause
  | resumeEmulation | start =>
    have hcontrol := (control_resume machine time.micros).trans (Runner.control_resume _)
    exact congrArg (·.debugger.target) hcontrol
  | setBreakpoint address =>
    refine (congrArg (·.debugger.target) (Runner.control_addBreakpoint address)).trans ?_
    split <;> rfl
  | clearBreakpoint address =>
    refine (congrArg (·.debugger.target) (Runner.control_removeBreakpoint address)).trans ?_
    split <;> rfl
  | clearAllBreakpoints => rfl
  | runToAddress address =>
    have hcontrol := (control_seek machine time.micros address).trans
      (Runner.control_seek time.micros address)
    refine (congrArg (·.debugger.target) hcontrol).trans ?_
    simp only [targetAfter]
    split <;> rfl
  | loadState document =>
    rw [control_handle_loadState]
    rcases control_load machine time.micros document with ⟨-, hmoved⟩ | ⟨-, hsame⟩
    · rw [hmoved]
      rfl
    · rw [hsame]
      rfl
  | reset => rfl

/-- Every action does to the target what is said of it. -/
theorem target_act (h : machine.control.Coherent) (action : Action) :
    (machine.act action).control.debugger.target = machine.targetAfter action := by
  cases action with
  | command time command => exact target_handle machine time command
  | slice now =>
    -- a slice drops the target exactly if it was stopped, wherever that was
    rcases control_slice_cases h.hook h.memo now with
      ⟨-, hstops, _, _, hcontrol, -⟩ | ⟨_, _, event, -, -, -, hstops, hcontrol⟩
    · simp only [act, targetAfter, hstops, hcontrol]
      rfl
    · simp only [act, targetAfter, hstops, hcontrol]
      rfl
  | reset now => rfl
  | flash id payload => exact congrArg (·.debugger.target) (control_onBank machine id _)
  | flashJson id payload => exact congrArg (·.debugger.target) (control_onBank machine id _)
  | flashRom now payload =>
    rcases control_flashRom machine now payload with ⟨-, hmoved⟩ | ⟨-, hsame⟩
    · simp only [act]
      rw [hmoved]
      rfl
    · simp only [act]
      rw [hsame]
      rfl

/-! ## The law of stopping -/

/-- A slice that was refused its last step ends where that step was attempted: paused,
with nothing done there, and with one stop event. -/
structure HaltsAt (machine : Machine) (now : Nat) (visit : Clock.Visit Pair) : Prop where
  refusedAt : (machine.slice now).2.1.lastSlice.refusedAt = some visit.before.1.registers.pc
  paused : (machine.slice now).2.1.runner.clock.running = false
  core_eq : (machine.slice now).2.1.core = coreOf visit.before
  stops : (machine.slice now).1.filterMap Event.stop? =
    [if machine.runner.debugger.target = some visit.before.1.registers.pc then
      .cursorReached visit.before.1.registers.pc
    else .breakpointHit visit.before.1.registers.pc]

/-- A slice that does nothing. -/
structure Idles (machine : Machine) (now : Nat) : Prop where
  visits_eq : machine.visits now = []
  lastSlice_eq : (machine.slice now).2.1.lastSlice = .empty
  core_eq : (machine.slice now).2.1.core = machine.core
  stops : (machine.slice now).1.filterMap Event.stop? = []
  control_eq : (machine.slice now).2.1.control = machine.control

/-- A refused step ends the slice in the way described. -/
theorem haltsAt_of_refused {earlier later : List (Clock.Visit Pair)} {visit : Clock.Visit Pair}
    (hcoherent : machine.control.Coherent)
    (hvisits : machine.visits now = earlier ++ visit :: later)
    (hrefused : visit.outcome.wasRefused = true) : later = [] ∧ machine.HaltsAt now visit := by
  have hwatched : Watched machine.control.debugger machine.pair :=
    ⟨hcoherent.hook, hcoherent.memo⟩
  rcases visit_cases hwatched hvisits with ⟨hran, -⟩ | ⟨rfl, event, hstop, -, houtcome, hafter⟩
  · simp [hran] at hrefused
  refine ⟨rfl, ?_⟩
  have hpc := Debugger.pc_of_stopAt? hstop
  have hcore : (machine.execute now).1.core = coreOf visit.before := by
    rw [core, pair_execute, hvisits, Clock.endOf_concat, hafter]
    rfl
  rcases control_slice_cases hcoherent.hook hcoherent.memo now with
    ⟨hnone, -⟩ | ⟨earlier', visit', event', hvisits', hstop', hat, hstops, hcontrol⟩
  · -- a slice that reports no refusal was refused nothing
    rw [lastSlice_execute, hvisits, Clock.reportOf, List.foldl_append, List.foldl_cons,
      List.foldl_nil, houtcome] at hnone
    cases hnone
  · obtain ⟨-, hlast⟩ := List.append_inj' (hvisits.symm.trans hvisits') rfl
    obtain rfl : visit = visit' := (List.cons.inj hlast).1
    obtain rfl : event = event' := Option.some.inj (hstop.symm.trans hstop')
    refine ⟨?_, ?_, ?_, ?_⟩
    · rw [lastSlice_slice, hat, hpc]
    · exact congrArg (·.running) hcontrol
    · rw [core_slice, hcore]
    · rw [hstops, Debugger.eq_of_stopAt? hstop]
      rfl

theorem idles_of_not_running (hcoherent : machine.control.Coherent)
    (h : machine.runner.clock.running = false) (now : Nat) : machine.Idles now := by
  have hvisits : machine.visits now = [] := Clock.sliceVisits_of_not_running h now _ _
  rcases control_slice_cases hcoherent.hook hcoherent.memo now with
    ⟨-, hstops, _, _, hcontrol, hnil, -⟩ | ⟨_, _, _, hvisits', -⟩
  · obtain ⟨rfl, rfl⟩ := hnil hvisits
    refine ⟨hvisits, ?_, ?_, hstops, hcontrol⟩
    · rw [lastSlice_slice, lastSlice_execute, hvisits]
      rfl
    · rw [core_slice, core, pair_execute, hvisits]
      rfl
  · simp [hvisits] at hvisits'

/-- Breakpoints and targets are not run over. When a slice comes to carry out a step at
such an address, then either it does so as its first step, the address is a breakpoint,
and the last thing that happened in the session was a stop there; or nothing is carried
out and the slice ends there with one stop event. A slice of a machine that does not run
does nothing. The target is removed by a stop event and replaced by seeking another
address, and by nothing else. -/
theorem stop_addresses_not_run_over (hbuilt : build? config now = .ok fresh)
    (actions : List Action) (time : Nat) :
    (∀ earlier visit later, (fresh.run actions).visits time = earlier ++ visit :: later →
      (fresh.run actions).runner.debugger.StopsAt visit.before.1.registers.pc →
      (visit.outcome.wasRefused = false ∧ earlier = [] ∧
        visit.before.1.registers.pc ∈ (fresh.run actions).runner.debugger.breakpoints ∧
        StoppedAt (fresh.history actions) visit.before.1.registers.pc) ∨
      (visit.outcome.wasRefused = true ∧ later = [] ∧
        (fresh.run actions).HaltsAt time visit)) ∧
    ((fresh.run actions).runner.clock.running = false → (fresh.run actions).Idles time) ∧
    ∀ action, ((fresh.run actions).act action).runner.debugger.target =
      (fresh.run actions).targetAfter action := by
  have hcoherent := coherent_run hbuilt actions
  have hstanding := standing_run hbuilt actions
  refine ⟨?_, fun h => idles_of_not_running hcoherent h time, target_act hcoherent⟩
  intro earlier visit later hvisits hstopsAt
  cases hrefused : visit.outcome.wasRefused with
  | true => exact Or.inr ⟨rfl, haltsAt_of_refused hcoherent hvisits hrefused⟩
  | false =>
    left
    have hwatched : Watched (fresh.run actions).control.debugger (fresh.run actions).pair :=
      ⟨hcoherent.hook, hcoherent.memo⟩
    have hbypass : visit.before.1.bypass = true := by
      rcases visit_cases hwatched hvisits with ⟨-, hbypass | hnot⟩ | ⟨-, _, -, -, houtcome, -⟩
      · exact hbypass
      · exact absurd hstopsAt hnot
      · simp [houtcome, Cpu.Outcome.wasRefused] at hrefused
    -- only the first step can have been taken by a bypass
    obtain rfl : earlier = [] := by
      by_contra hearlier
      simp [(watched_of_visit hwatched hvisits).2 hearlier] at hbypass
    obtain ⟨-, hbefore, -⟩ := Clock.sliceVisits_split hvisits
    rw [Clock.endOf_nil] at hbefore
    rw [hbefore] at hbypass hstopsAt ⊢
    obtain ⟨hstopped, htarget⟩ := hstanding.bypass hbypass
    exact ⟨rfl, rfl, hstopsAt.resolve_right htarget, hstopped⟩

/-- A machine with a breakpoint where it begins halts there before its first step. -/
theorem stop_addresses_not_run_over_at_start :
    ∃ fresh visit, build? {} 0 = .ok fresh ∧
      (fresh.run [.command ⟨0, 0⟩ (.setBreakpoint 0), .command ⟨0, 0⟩ .start]).visits 1 =
        [visit] ∧
      visit.before.1.registers.pc = 0 ∧
      (fresh.run [.command ⟨0, 0⟩ (.setBreakpoint 0), .command ⟨0, 0⟩ .start]).HaltsAt 1
        visit := by
  obtain ⟨fresh, hbuilt⟩ := exists_build? {} 0
  have hrun : ((build? {} 0).toOption.map fun fresh =>
      let machine := fresh.run [.command ⟨0, 0⟩ (.setBreakpoint 0), .command ⟨0, 0⟩ .start]
      (machine.runner.debugger.breakpoints,
        (machine.visits 1).map fun visit =>
          (visit.before.1.registers.pc, visit.outcome.wasRefused))) =
      some ([0], [(0, true)]) := by
    decide +kernel
  rw [hbuilt] at hrun
  obtain ⟨hbreakpoints, hvisits⟩ := Prod.mk.inj (Option.some.inj hrun)
  obtain ⟨visit, hvisits, hvisit⟩ := List.map_eq_singleton_iff.mp hvisits
  obtain ⟨hpc, hrefused⟩ := Prod.mk.inj hvisit
  refine ⟨fresh, visit, hbuilt, hvisits, hpc, ?_⟩
  rcases (stop_addresses_not_run_over hbuilt _ 1).1 [] visit [] hvisits
    (Or.inl (by rw [hpc, hbreakpoints]; simp)) with ⟨hran, -⟩ | ⟨-, -, hhalts⟩
  · simp [hran] at hrefused
  · exact hhalts

end AppleOne.Machine
