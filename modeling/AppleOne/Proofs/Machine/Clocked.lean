import AppleOne.Proofs.Clock.Session
import AppleOne.Proofs.Machine.Cycles

/-!
# The clock of a machine

A machine hands its steps to its clock and keeps the report of the last slice. What a clock does
with steps of any kind is known from its sessions. To that the machine adds how many cycles its
steps take, and that the counter of the processor goes on by what is reported.

## Main results

* `Machine.cycles_stepWithScreen_le`: the most cycles of a machine step.
* `Machine.cycles_lastSlice`, `Machine.cycles_slice`: the cycles of the last slice, and the counter
  after it.
* `Machine.slices_add_up`: how far slices go, and what the clock adds up.
* `Machine.slices_keep_window`: emulated time and real time in a run of paced slices.
-/

namespace AppleOne

variable {σ : Type}

/-- The cycles of a report are those of the visits. -/
theorem Clock.cycles_reportOf (report : SliceReport) (visits : List (Clock.Visit σ)) :
    (reportOf report visits).cycles = report.cycles + spent visits := by
  induction visits generalizing report with
  | nil => rfl
  | cons visit rest ih =>
    have hrest : (reportOf report (visit :: rest)).cycles = _ := ih (report.extend visit.outcome)
    rw [hrest, spent_cons]
    cases visit.outcome with
    | ran cycles => exact Nat.add_assoc _ _ _
    | refused pc => exact congrArg (report.cycles + ·) (Nat.zero_add _).symm

namespace Machine

variable {machine : Machine}

/-- A machine step takes as many cycles as a step of the processor, and that is at most seven. -/
theorem cycles_stepWithScreen_le (pair : Pair) :
    (stepWithScreen pair).1.cycles.toNat ≤ 7 := by
  obtain ⟨memo, hstep | hstep⟩ := stepWithScreen_cases pair
  · obtain ⟨-, hmost, -⟩ := Cpu.cycles_advance { pair.1 with bypass := false, memo }
    rw [hstep]
    exact hmost
  · rw [hstep]
    exact Nat.zero_le 7

/-- The report of the last slice has the cycles of its visits. -/
theorem cycles_lastSlice (machine : Machine) (now : Nat) :
    (machine.slice now).2.1.lastSlice.cycles = Clock.spent (machine.visits now) := by
  rw [lastSlice_slice, lastSlice_execute, Clock.cycles_reportOf]
  exact Nat.zero_add _

/-- A slice takes the counter on by the cycles that it reports. -/
theorem cycles_slice (machine : Machine) (now : Nat) :
    let after := (machine.slice now).2.1
    after.cycles = (machine.cycles + after.lastSlice.cycles) % UInt64.size := by
  intro after
  have hslice : (machine.act (.slice now)).cycles =
      (machine.cycles + Clock.spent (machine.visits now)) % UInt64.size := cycles_act rfl
  rw [cycles_lastSlice]
  exact hslice

/-- What a slice reports is the difference of the counters. -/
theorem cycles_slice_sub (machine : Machine) (now : Nat) :
    let after := (machine.slice now).2.1
    after.runner.cpu.registers.cycles - machine.runner.cpu.registers.cycles =
      after.lastSlice.cycles.toUInt64 := by
  intro after
  have hsum : after.runner.cpu.registers.cycles =
      after.lastSlice.cycles.toUInt64 + machine.runner.cpu.registers.cycles := by
    refine UInt64.toNat_inj.mp ((cycles_slice machine now).trans ?_)
    rw [UInt64.toNat_add, UInt64.toNat_ofNat', Nat.mod_add_mod, Nat.add_comm]
    rfl
  rw [hsum, UInt64.add_sub_cancel]

/-- A report of a paced machine exceeds the cycles of a slice by less than a step. -/
theorem cycles_lastSlice_lt {keeper : Timekeeper}
    (hpacer : machine.runner.clock.pacer = .cycleAccurate keeper) (now : Nat) :
    (machine.slice now).2.1.lastSlice.cycles < keeper.cyclesPerSlice + 7 := by
  rw [lastSlice_slice]
  exact Clock.cycles_slice_lt hpacer cycles_stepWithScreen_le

/-! ## Slices and sums -/

/-- After anything that was asked of a clock the next slice does nothing if the clock does not run.
If it does then the slice goes as far as its pacer says, and no further than to a refusal. The sums
of the clock are those of the reports of the slices that were run, as far as 64 bits go. The counter
of a machine goes on by the cycles of the last slice. -/
theorem slices_add_up (config : Config) (now : Nat) (state : σ)
    (requests : List (Clock.Request σ)) :
    let result := (Clock.initial config now).1.session state requests
    let reports := result.1
    let clock := result.2.1
    (clock.running = false → ∀ later (step : σ → Cpu.Outcome × σ) state,
      clock.slice later step state = (.empty, clock, state, later)) ∧
    (clock.running = true → ∀ later (step : σ → Cpu.Outcome × σ) state,
      let run := clock.slice later step state
      Clock.RunsSlice config clock later step state run.1 run.2.1 run.2.2.1 run.2.2.2) ∧
    (clock.cyclesRun.toNat = (reports.map SliceReport.cycles).sum % UInt64.size ∧
      clock.instructionsRun.toNat = (reports.map SliceReport.instructions).sum % UInt64.size ∧
      clock.slices.toNat = reports.length % UInt64.size) ∧
    ∀ (machine : Machine) (now : Nat),
      let after := (machine.slice now).2.1
      after.runner.cpu.registers.cycles - machine.runner.cpu.registers.cycles =
        after.lastSlice.cycles.toUInt64 ∧
      (machine.cycles + after.lastSlice.cycles < UInt64.size →
        after.cycles = machine.cycles + after.lastSlice.cycles) := by
  have hfits := Clock.fits_session (Clock.fits_initial config now) state requests
  obtain ⟨hcycles, hinstructions, hslices⟩ :=
    Clock.adds_session (Clock.initial config now).1 state requests
  obtain ⟨hnoCycles, hnoInstructions, hnoSlices⟩ := Clock.sums_initial config now
  refine ⟨fun hidle later step state => Clock.slice_of_not_running hidle later step state,
    fun hrunning later step state => Clock.runsSlice_of_fits hfits hrunning later step state,
    ⟨?_, ?_, ?_⟩, fun machine now => ⟨cycles_slice_sub machine now, fun hsum => ?_⟩⟩
  · rw [hcycles, hnoCycles, UInt64.zero_add, UInt64.toNat_ofNat']
  · rw [hinstructions, hnoInstructions, UInt64.zero_add, UInt64.toNat_ofNat']
  · rw [hslices, hnoSlices, UInt64.zero_add, UInt64.toNat_ofNat']
  · rw [cycles_slice, Nat.mod_eq_of_lt hsum]

/-- A clock that has been started runs a slice of two steps and is refused the third. One that has
not been started runs none, and a machine that has not been started keeps its counter. -/
theorem slices_add_up_started :
    let step : Nat → Cpu.Outcome × Nat := fun taken =>
      if taken < 2 then (.ran 5, taken + 1) else (.refused 0x0200, taken)
    let idle := ((Clock.initial {} 0).1.session 0 ([] : List (Clock.Request Nat))).2.1
    let clock := ((Clock.initial {} 0).1.session 0 [Clock.Request.start 0, .slice 1 step]).2.1
    let resumed := ((Clock.initial {} 0).1.session 0
      [Clock.Request.start 0, .slice 1 step, .resume 2]).2.1
    let run := resumed.slice 3 step 0
    idle.slice 3 step 0 = (.empty, idle, 0, 3) ∧
      clock.cyclesRun.toNat = 10 ∧ clock.slices.toNat = 1 ∧
      Clock.RunsSlice {} resumed 3 step 0 run.1 run.2.1 run.2.2.1 run.2.2.2 ∧
      ∃ fresh, build? {} 0 = .ok fresh ∧
        (fresh.slice 3).2.1.cycles = fresh.cycles + (fresh.slice 3).2.1.lastSlice.cycles := by
  intro step idle clock resumed run
  obtain ⟨hidle, -⟩ := slices_add_up {} 0 0 ([] : List (Clock.Request Nat))
  obtain ⟨-, -, ⟨hcycles, -, hslices⟩, hmachine⟩ :=
    slices_add_up {} 0 0 [Clock.Request.start 0, .slice 1 step]
  obtain ⟨-, hruns, -⟩ := slices_add_up {} 0 0 [Clock.Request.start 0, .slice 1 step, .resume 2]
  obtain ⟨fresh, hbuilt⟩ := exists_build? {} 0
  have hnone : ((build? {} 0).toOption.map fun fresh =>
      fresh.cycles + (fresh.slice 3).2.1.lastSlice.cycles) = some 0 := by
    decide +kernel
  rw [hbuilt] at hnone
  have hsum : fresh.cycles + (fresh.slice 3).2.1.lastSlice.cycles = 0 := Option.some.inj hnone
  refine ⟨hidle rfl 3 step 0, hcycles.trans ?_, hslices.trans ?_, hruns ?_ 3 step 0, fresh, hbuilt,
    (hmachine fresh 3).2 ?_⟩
  · decide +kernel
  · decide +kernel
  · decide +kernel
  · rw [hsum]
    decide

/-! ## The window of a paced clock -/

/-- However the calls of a timekeeper and the time between them come, emulated time is in its window
whenever a slice begins. The timekeeper waits exactly as long as it has to, gives up catching up
exactly when it may, and counts how often it did, modulo 64 bits. As long as no call sets a new
reference, the cycles that were run in total are not ahead of the clock by as much as runs in a
microsecond. And a slice that begins late is no longer than any other: it goes on past its cycles
by less than a step. -/
theorem slices_keep_window (hz : UInt64) (sliceLength maxLag now : Nat)
    (calls : List Timekeeper.Call) :
    let start := Paced.start hz sliceLength maxLag now
    let before := start.run calls
    let ready := before.after .synchronize
    let total := (calls.map Timekeeper.Call.cycles).sum
    let resyncs := start.resyncCount (calls ++ [.synchronize])
    ready.keeper.SameSettings start.keeper ∧ before.Synchronizes ready ∧
    ready.keeper.resyncs = resyncs.toUInt64 ∧
    Pacer.allowance before.now (.cycleAccurate before.keeper) =
      (⟨Pacer.maxInstructions, start.keeper.cyclesPerSlice⟩, .cycleAccurate ready.keeper,
        ready.now) ∧
    ((∀ call ∈ calls, call ≠ .rebase) → resyncs = 0 → total * 1000000 < UInt64.size →
      total * 1000000 < max hz.toNat 1 * (ready.elapsed + 1)) ∧
    (∀ clock : Clock, clock.running = true → clock.pacer = .cycleAccurate before.keeper →
      ∀ (step : σ → Cpu.Outcome × σ) state,
        let run := clock.slice before.now step state
        let final := ready.after (.count run.1.cycles)
        run.2.1.pacer = .cycleAccurate final.keeper ∧ run.2.2.2 = final.now ∧
        ((∀ state, (step state).1.cycles.toNat ≤ 7) →
          run.1.cycles < start.keeper.cyclesPerSlice + 7)) ∧
    ∀ machine : Machine, machine.runner.clock.pacer = .cycleAccurate before.keeper →
      ∀ now, (machine.slice now).2.1.lastSlice.cycles < start.keeper.cyclesPerSlice + 7 := by
  have hsettings := Paced.sameSettings_run (.start hz sliceLength maxLag now) calls
  have hsound := Paced.sound_start hz sliceLength maxLag now
  refine ⟨Paced.sameSettings_synchronized _ calls,
    Paced.synchronizes_of_sound (Paced.sound_run hsound calls), ?_, ?_, ?_, ?_, ?_⟩
  · have hcounter :=
      Paced.resyncs_run (.start hz sliceLength maxLag now) (calls ++ [.synchronize])
    rw [Paced.run_concat] at hcounter
    exact hcounter.trans (UInt64.zero_add _)
  · rw [← hsettings.cyclesPerSlice]
    exact Paced.allowance_eq _
  · exact fun hcalls hkept hfits => Paced.total_lt_of_sound hsound rfl hcalls hkept hfits
  · intro clock hrunning hpacer step state
    obtain ⟨hkeeper, hlater⟩ := Clock.slice_eq_run hpacer hrunning step state
    refine ⟨hkeeper, hlater, fun hsteps => ?_⟩
    rw [← hsettings.cyclesPerSlice]
    exact Clock.cycles_slice_lt hpacer hsteps
  · intro machine hpacer now
    rw [← hsettings.cyclesPerSlice]
    exact cycles_lastSlice_lt hpacer now

/-- A timekeeper that counts 16002 cycles in a slice waits for two microseconds before the next one.
Neither a clock nor a machine with its settings runs a longer slice than is due. -/
theorem slices_keep_window_waiting :
    let calls : List Timekeeper.Call := [.synchronize, .count 16002, .wait 16000]
    let start := Paced.start 1000000 16000 100000 0
    let ready := (start.run calls).after .synchronize
    let paced : Config := { cycleAccurate := true }
    let step : Nat → Cpu.Outcome × Nat := fun taken => (.ran 7, taken + 1)
    ready.now = 16002 ∧ 16002 * 1000000 < 1000000 * (ready.elapsed + 1) ∧
      (((Clock.initial paced 0).1.start 0).1.slice 0 step 0).1.cycles < 16007 ∧
      ∃ fresh, build? paced 0 = .ok fresh ∧ (fresh.slice 0).2.1.lastSlice.cycles < 16007 := by
  intro calls start ready paced step
  have hcalls : ∀ call ∈ calls, call ≠ .rebase := by decide
  have hready : ready.now = 16002 := by decide +kernel
  have hkept : start.resyncCount (calls ++ [.synchronize]) = 0 := by decide +kernel
  have hcycles : start.keeper.cyclesPerSlice = 16000 := by decide +kernel
  obtain ⟨-, -, -, -, htotal, -⟩ := @slices_keep_window Nat 1000000 16000 100000 0 calls
  obtain ⟨-, -, -, -, -, hclock, hmachine⟩ := @slices_keep_window Nat 1000000 16000 100000 0 []
  have hrunning : ((Clock.initial paced 0).1.start 0).1.running = true := by decide +kernel
  have hpaced : ((Clock.initial paced 0).1.start 0).1.pacer =
      .cycleAccurate start.keeper := by decide +kernel
  obtain ⟨-, -, hslice⟩ := hclock _ hrunning hpaced step 0
  have hsteps : ∀ state, (step state).1.cycles.toNat ≤ 7 := fun _ => Nat.le_refl 7
  obtain ⟨fresh, hbuilt⟩ := exists_build? paced 0
  have hpacer : ((build? paced 0).toOption.map fun fresh => fresh.runner.clock.pacer) =
      some (.cycleAccurate start.keeper) := by
    decide +kernel
  rw [hbuilt] at hpacer
  have hlast := hmachine fresh (Option.some.inj hpacer) 0
  rw [hcycles] at hslice hlast
  exact ⟨hready, htotal hcalls hkept (by decide), hslice hsteps, fresh, hbuilt, hlast⟩

end Machine

end AppleOne
