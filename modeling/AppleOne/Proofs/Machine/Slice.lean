import AppleOne.Proofs.Debugger.Control
import AppleOne.Proofs.Machine.Session

/-!
# Slices

A slice runs machine steps, takes the stop event if one was noted, and collects what the
host has to know. Here its parts are put together: where the steps lead, what the slice
reports, and what a processor with the hook of a debugger does at each visit.

## Main definitions

* `Event.stop?`: the stop event that an event tells of.

## Main results

* `pair_execute`, `lastSlice_execute`: the steps of a slice and its report.
* `slice_stops`, `control_slice`: the stop events of a slice and its effect on the control.
* `visit_cases`: a visit is carried out, or it is refused at a stop address and is the last.
-/

namespace AppleOne

/-- The stop event that an event tells of. -/
def Event.stop? : Event → Option StopEvent
  | stopped event => some event
  | _ => none

namespace Machine

/-- The control of a machine. -/
def control (machine : Machine) : Runner.Control := machine.runner.control

/-! ## The run of a slice -/

section Execute

variable (machine : Machine) (now : Nat)

/-- The steps of a slice lead where its visits lead. -/
theorem pair_execute :
    (machine.execute now).1.pair = Clock.endOf machine.pair (machine.visits now) := by
  cases h : machine.runner.clock.running with
  | true =>
    simp only [execute, visits, pair, Clock.slice_of_running h]
  | false =>
    simp only [execute, visits, pair, Clock.slice_of_not_running h,
      Clock.sliceVisits_of_not_running h, Clock.endOf_nil]

/-- A slice reports its visits. -/
theorem lastSlice_execute :
    (machine.execute now).1.lastSlice = Clock.reportOf .empty (machine.visits now) := by
  cases h : machine.runner.clock.running with
  | true => simp only [execute, visits, pair, Clock.slice_of_running h]
  | false =>
    simp only [execute, visits, pair, Clock.slice_of_not_running h,
      Clock.sliceVisits_of_not_running h]
    rfl

@[simp] theorem debugger_execute :
    (machine.execute now).1.runner.debugger = machine.runner.debugger := rfl

/-- A refused step pauses the clock. -/
theorem running_execute :
    (machine.execute now).1.runner.clock.running =
      (machine.runner.clock.running && (machine.execute now).1.lastSlice.refusedAt.isNone) := by
  cases h : machine.runner.clock.running with
  | true =>
    simp only [execute, Clock.slice_of_running h, Clock.running_account, Bool.true_and]
    simp [Clock.running] at h ⊢
    simp [h]
  | false => simp only [execute, Clock.slice_of_not_running h, h, Bool.false_and]

end Execute

/-! ## The events of a slice -/

/-- Telling the host of the screen changes what it was told of, and nothing else. -/
theorem machine_videoEvents (machine : Machine) :
    machine.videoEvents.2 = { machine with reportedVersion := machine.screen.version } := by
  unfold videoEvents
  split
  · next hversion => rw [hversion]
  · rfl

/-- A debug snapshot changes its timer, and nothing else. -/
theorem machine_timedEvents (machine : Machine) (now : Nat) :
    ∃ timer, (machine.timedEvents now).2 = { machine with timer } := by
  unfold timedEvents
  split
  · split
    · exact ⟨_, rfl⟩
    · exact ⟨machine.timer, rfl⟩
  · exact ⟨machine.timer, rfl⟩

@[simp] theorem runner_videoEvents (machine : Machine) :
    machine.videoEvents.2.runner = machine.runner := by
  rw [machine_videoEvents]

@[simp] theorem runner_timedEvents (machine : Machine) (now : Nat) :
    (machine.timedEvents now).2.runner = machine.runner := by
  obtain ⟨timer, htimer⟩ := machine.machine_timedEvents now
  rw [htimer]

@[simp] theorem control_logEvents (machine : Machine) :
    machine.logEvents.2.control = machine.control := rfl

section Select

variable {α : Type} (select : Event → Option α)

/-- Whoever does not look at screens finds nothing among the video events. -/
theorem filterMap_videoEvents (h : ∀ state, select (.videoUpdated state) = none)
    (machine : Machine) : machine.videoEvents.1.filterMap select = [] := by
  unfold videoEvents
  split
  · rfl
  · simp [h]

theorem filterMap_timedEvents (h : ∀ view, select (.debugSnapshot view) = none)
    (machine : Machine) (now : Nat) : (machine.timedEvents now).1.filterMap select = [] := by
  unfold timedEvents
  split
  · split
    · simp [h]
    · rfl
  · rfl

theorem filterMap_logEvents (h : ∀ entries, select (.log entries) = none) (machine : Machine) :
    machine.logEvents.1.filterMap select = [] := by
  unfold logEvents
  simp only
  split
  · rfl
  · simp [h]

theorem filterMap_stopEvents (h : ∀ event, select (.stopped event) = none) (machine : Machine)
    (now : Nat) : (machine.stopEvents now).1.filterMap select = [] := by
  unfold stopEvents
  split
  · rfl
  · simp [h]

end Select

theorem stops_stopEvents (machine : Machine) (now : Nat) :
    (machine.stopEvents now).1.filterMap Event.stop? = machine.runner.takeStop.1.toList := by
  unfold stopEvents
  cases h : machine.runner.takeStop with
  | mk event runner => cases event <;> rfl

theorem control_stopEvents (machine : Machine) (now : Nat) :
    (machine.stopEvents now).2.control = machine.runner.takeStop.2.control := by
  unfold stopEvents
  cases h : machine.runner.takeStop with
  | mk event runner =>
    cases event with
    | some event => rfl
    | none =>
      unfold Runner.takeStop at h
      split at h
      · obtain ⟨-, rfl⟩ := Prod.mk.inj h
        rfl
      · simp at h

/-- The stop events of a slice are what its run noted. -/
theorem slice_stops (machine : Machine) (now : Nat) :
    (machine.slice now).1.filterMap Event.stop? =
      (machine.execute now).1.runner.cpu.memo.toList := by
  have hvideo := filterMap_videoEvents Event.stop? fun _ => rfl
  have htimed := filterMap_timedEvents Event.stop? fun _ => rfl
  have hlogs := filterMap_logEvents Event.stop? fun _ => rfl
  simp only [slice, List.filterMap_append, hvideo, htimed, hlogs, stops_stopEvents,
    List.append_nil]
  unfold Runner.takeStop
  split <;> simp [*]

/-- A slice settles the control by taking the stop event of its run. -/
theorem control_slice (machine : Machine) (now : Nat) :
    (machine.slice now).2.1.control = (machine.execute now).1.runner.takeStop.2.control := by
  simp only [slice, control_logEvents]
  rw [control, runner_timedEvents, runner_videoEvents]
  exact control_stopEvents _ _

/-! ## What follows the run of a slice -/

theorem coreOf_takeStop (runner : Runner Bus) (screen : Screen) :
    coreOf (runner.takeStop.2.cpu, screen) = coreOf (runner.cpu, screen) := by
  unfold Runner.takeStop
  split
  · rfl
  · unfold Runner.dropTarget
    simp only
    split <;> rfl

theorem core_logEvents (machine : Machine) : machine.logEvents.2.core = machine.core := rfl

theorem core_stopEvents (machine : Machine) (now : Nat) :
    (machine.stopEvents now).2.core = machine.core := by
  have hcore := coreOf_takeStop machine.runner machine.screen
  unfold stopEvents
  cases h : machine.runner.takeStop with
  | mk event runner =>
    rw [h] at hcore
    cases event with
    | none => rfl
    | some event => exact hcore

theorem core_videoEvents (machine : Machine) : machine.videoEvents.2.core = machine.core := by
  rw [machine_videoEvents]
  rfl

theorem core_timedEvents (machine : Machine) (now : Nat) :
    (machine.timedEvents now).2.core = machine.core := by
  obtain ⟨timer, htimer⟩ := machine.machine_timedEvents now
  rw [htimer]
  rfl

/-- Collecting what the host has to know changes nothing that instructions work on. -/
theorem core_slice (machine : Machine) (now : Nat) :
    (machine.slice now).2.1.core = (machine.execute now).1.core := by
  simp only [slice]
  rw [core_logEvents, core_timedEvents, core_videoEvents, core_stopEvents]

theorem lastSlice_stopEvents (machine : Machine) (now : Nat) :
    (machine.stopEvents now).2.lastSlice = machine.lastSlice := by
  unfold stopEvents
  split <;> rfl

theorem lastSlice_videoEvents (machine : Machine) :
    machine.videoEvents.2.lastSlice = machine.lastSlice := by
  rw [machine_videoEvents]

theorem lastSlice_timedEvents (machine : Machine) (now : Nat) :
    (machine.timedEvents now).2.lastSlice = machine.lastSlice := by
  obtain ⟨timer, htimer⟩ := machine.machine_timedEvents now
  rw [htimer]

/-- The report of a slice stays for a debugger to see. -/
theorem lastSlice_slice (machine : Machine) (now : Nat) :
    (machine.slice now).2.1.lastSlice = (machine.execute now).1.lastSlice := by
  have hlogs (machine : Machine) : machine.logEvents.2.lastSlice = machine.lastSlice := rfl
  simp only [slice]
  rw [hlogs, lastSlice_timedEvents, lastSlice_videoEvents, lastSlice_stopEvents]

/-! ## Visits under the hook of a debugger -/

section Hooked

variable {debugger : Debugger}

/-- A processor that has the hook of a debugger and has noted nothing. -/
def Watched (debugger : Debugger) (pair : Pair) : Prop :=
  pair.1.hook = debugger.hook? ∧ pair.1.memo = none

theorem stepWithScreen_of_advance {cpu advanced : Cpu Bus (Option StopEvent)} {screen : Screen}
    (h : cpu.step = advanced.advance) :
    stepWithScreen (cpu, screen) = advanceWithScreen (advanced, screen) := by
  unfold stepWithScreen
  simp only [h, Cpu.advance_wasRefused, Bool.false_eq_true, if_false]
  rfl

/-- A machine step of a processor that has the hook of a debugger. -/
theorem stepWithScreen_eq {pair : Pair} (h : pair.1.hook = debugger.hook?) :
    stepWithScreen pair =
      if pair.1.bypass then advanceWithScreen ({ pair.1 with bypass := false }, pair.2)
      else
        match debugger.stopAt? pair.1.registers.pc with
        | some event =>
          (.refused pair.1.registers.pc, { pair.1 with memo := some event }, pair.2)
        | none => advanceWithScreen pair := by
  obtain ⟨cpu, screen⟩ := pair
  have hstep : cpu.step = _ := Debugger.step_eq h
  by_cases hbypass : cpu.bypass = true
  · rw [if_pos hbypass] at hstep ⊢
    exact stepWithScreen_of_advance hstep
  · rw [if_neg hbypass] at hstep ⊢
    simp only
    -- a refused step leaves nothing for the display
    cases hstop : debugger.stopAt? cpu.registers.pc with
    | some event =>
      rw [hstop] at hstep
      simp only [stepWithScreen, hstep]
      rfl
    | none =>
      rw [hstop] at hstep
      exact stepWithScreen_of_advance hstep

@[simp] theorem advanceWithScreen_wasRefused (pair : Pair) :
    (advanceWithScreen pair).1.wasRefused = false :=
  pair.1.advance_wasRefused

@[simp] theorem advanceWithScreen_hook (pair : Pair) :
    (advanceWithScreen pair).2.1.hook = pair.1.hook :=
  pair.1.advance_hook

@[simp] theorem advanceWithScreen_memo (pair : Pair) :
    (advanceWithScreen pair).2.1.memo = pair.1.memo :=
  pair.1.advance_memo

@[simp] theorem advanceWithScreen_bypass (pair : Pair) :
    (advanceWithScreen pair).2.1.bypass = pair.1.bypass :=
  pair.1.advance_bypass

/-- A step that is carried out leaves the hook, notes nothing and uses a bypass up. -/
theorem watched_step {pair : Pair} (h : Watched debugger pair)
    (hran : (stepWithScreen pair).1.wasRefused = false) :
    Watched debugger (stepWithScreen pair).2 ∧ (stepWithScreen pair).2.1.bypass = false := by
  obtain ⟨hhook, hmemo⟩ := h
  rw [stepWithScreen_eq hhook] at hran ⊢
  by_cases hbypass : pair.1.bypass = true
  · rw [if_pos hbypass]
    exact ⟨⟨by simpa using hhook, by simpa using hmemo⟩, by simp⟩
  · rw [if_neg hbypass] at hran ⊢
    cases hstop : debugger.stopAt? pair.1.registers.pc with
    | some event => simp [hstop, Cpu.Outcome.wasRefused] at hran
    | none => exact ⟨⟨by simpa using hhook, by simpa using hmemo⟩, by simpa using hbypass⟩

variable {machine : Machine} {now : Nat} {earlier later : List (Clock.Visit Pair)}
  {visit : Clock.Visit Pair}

theorem watched_before_visit (h : Watched debugger machine.pair)
    (hvisits : machine.visits now = earlier ++ visit :: later) :
    Watched debugger visit.before := by
  obtain ⟨-, hbefore, -, hearlier, -⟩ := Clock.sliceVisits_split hvisits
  rw [hbefore]
  exact Clock.endOf_earlier_sliceVisits_induction (fun _ hs hran => (watched_step hs hran).1)
    h hvisits hearlier

/-- A visit that is carried out uses a bypass up. -/
theorem bypass_after_visit (h : Watched debugger machine.pair)
    (hvisits : machine.visits now = earlier ++ visit :: later)
    (hran : visit.outcome.wasRefused = false) : visit.after.1.bypass = false := by
  have hwatched := watched_before_visit h hvisits
  obtain ⟨-, -, htaken, -, -⟩ := Clock.sliceVisits_split hvisits
  have hbypass := (watched_step hwatched (by rw [htaken]; exact hran)).2
  rwa [htaken] at hbypass

/-- At every visit the processor still has the hook and has noted nothing, and only at
the first visit a bypass may be pending. -/
theorem watched_of_visit (h : Watched debugger machine.pair)
    (hvisits : machine.visits now = earlier ++ visit :: later) :
    Watched debugger visit.before ∧ (earlier ≠ [] → visit.before.1.bypass = false) := by
  obtain ⟨-, hbefore, -, hearlier, -⟩ := Clock.sliceVisits_split hvisits
  refine ⟨watched_before_visit h hvisits, ?_⟩
  rcases List.eq_nil_or_concat earlier with rfl | ⟨first, last, rfl⟩
  · intro hne
    exact absurd rfl hne
  · intro _
    -- the visit before this one was carried out, which used a bypass up
    rw [List.concat_eq_append] at hvisits hearlier hbefore
    rw [List.append_assoc] at hvisits
    rw [hbefore, Clock.endOf_concat]
    exact bypass_after_visit h hvisits (hearlier last (by simp))

/-- A visit is carried out, by a bypass or at an address where the machine need not stop;
or it is refused at a stop address, and then it is the last and notes the stop event. -/
theorem visit_cases (h : Watched debugger machine.pair)
    (hvisits : machine.visits now = earlier ++ visit :: later) :
    (visit.outcome.wasRefused = false ∧
      (visit.before.1.bypass = true ∨ ¬ debugger.StopsAt visit.before.1.registers.pc)) ∨
    (later = [] ∧ ∃ event, debugger.stopAt? visit.before.1.registers.pc = some event ∧
      visit.before.1.bypass = false ∧
      visit.outcome = .refused visit.before.1.registers.pc ∧
      visit.after = ({ visit.before.1 with memo := some event }, visit.before.2)) := by
  obtain ⟨⟨hhook, -⟩, -⟩ := watched_of_visit h hvisits
  obtain ⟨-, -, htaken, -, hlater⟩ := Clock.sliceVisits_split hvisits
  rw [stepWithScreen_eq hhook] at htaken
  by_cases hbypass : visit.before.1.bypass = true
  · rw [if_pos hbypass] at htaken
    have houtcome : visit.outcome = _ := (congrArg Prod.fst htaken).symm
    rw [houtcome]
    exact Or.inl ⟨advanceWithScreen_wasRefused _, Or.inl hbypass⟩
  · rw [if_neg hbypass] at htaken
    cases hstop : debugger.stopAt? visit.before.1.registers.pc with
    | none =>
      -- the hook was asked and had nothing against it
      rw [hstop] at htaken
      have houtcome : visit.outcome = _ := (congrArg Prod.fst htaken).symm
      rw [houtcome]
      exact Or.inl ⟨advanceWithScreen_wasRefused _, Or.inr (Debugger.stopAt?_eq_none_iff.mp hstop)⟩
    | some event =>
      rw [hstop] at htaken
      obtain ⟨houtcome, hafter⟩ := Prod.mk.inj htaken
      exact Or.inr ⟨hlater (by rw [← houtcome]; rfl), event, rfl,
        Bool.eq_false_iff.mpr hbypass, houtcome.symm, hafter.symm⟩

/-- After its run, a slice either has refused nothing and noted nothing, or it has noted
the stop event of the address at which its last visit was refused. -/
theorem execute_cases (h : Watched debugger machine.pair) (now : Nat) :
    ((machine.execute now).1.lastSlice.refusedAt = none ∧
      Watched debugger (machine.execute now).1.pair ∧
      (machine.visits now ≠ [] → (machine.execute now).1.pair.1.bypass = false)) ∨
    (∃ earlier visit event, machine.visits now = earlier ++ [visit] ∧
      debugger.stopAt? visit.before.1.registers.pc = some event ∧
      visit.before.1.bypass = false ∧
      (machine.execute now).1.lastSlice.refusedAt = some visit.before.1.registers.pc ∧
      (machine.execute now).1.pair =
        ({ visit.before.1 with memo := some event }, visit.before.2)) := by
  rw [lastSlice_execute, pair_execute]
  by_cases hran : ∀ visit ∈ machine.visits now, visit.outcome.wasRefused = false
  · -- every visit was carried out, so the hook has nothing to note
    left
    refine ⟨Clock.reportOf_refusedAt _ _ hran, ?_, ?_⟩
    · have hvisits : machine.visits now = machine.visits now ++ [] := (List.append_nil _).symm
      exact Clock.endOf_earlier_sliceVisits_induction
        (fun _ hs hran => (watched_step hs hran).1) h hvisits hran
    · intro hne
      obtain ⟨earlier, last, hvisits⟩ := (List.eq_nil_or_concat _).resolve_left hne
      rw [List.concat_eq_append] at hvisits
      rw [hvisits, Clock.endOf_concat]
      exact bypass_after_visit h hvisits (hran last (by simp [hvisits]))
  · -- some visit was refused, which makes it the last
    right
    push Not at hran
    obtain ⟨visit, hmem, hrefused⟩ := hran
    obtain ⟨earlier, later, hvisits⟩ := List.append_of_mem hmem
    rcases visit_cases h hvisits with ⟨hnot, -⟩ | ⟨rfl, event, hstop, hbypass, houtcome, hafter⟩
    · exact absurd hnot hrefused
    · refine ⟨earlier, visit, event, hvisits, hstop, hbypass, ?_, ?_⟩
      · rw [hvisits, Clock.reportOf, List.foldl_append, List.foldl_cons, List.foldl_nil,
          houtcome]
        rfl
      · rw [hvisits, Clock.endOf_concat, hafter]

end Hooked

end Machine

end AppleOne
