import AppleOne.Proofs.Clock.Attempts
import AppleOne.Proofs.Clock.Window

/-!
# Sessions of a clock

A clock is started, paused and resumed, it changes its pacer, and in between it is asked for
slices. Whatever was asked of it before, its pacer has the settings that the clock was built with,
so it is known how far the next slice has to go: as many steps as are in a batch if the clock runs
freely, and otherwise as many as take the cycles of a slice.

The clock adds up what its slices report. The sums have 64 bits.

## Main definitions

* `Clock.Request`, `Clock.session`: what can be asked of a clock, and the reports of the slices
  that were run.
* `Clock.Enough`: the numbers of steps that are enough for a slice.
* `Clock.RunsSlice`: what a slice of a running clock is.
* `Clock.Fits`, `Clock.Adds`: what sessions keep, and what they add.

## Main results

* `Clock.fits_session`: the settings stay as they are.
* `Clock.runsSlice_of_fits`: a slice goes exactly as far as it has to.
* `Clock.slice_eq_run`, `Clock.cycles_slice_lt`: a paced slice as calls of its timekeeper, and the
  most cycles that it takes.
* `Clock.adds_session`: the sums of a clock are those of the reports.
-/

namespace AppleOne

/-- The cycles of a paced slice. -/
def Config.cyclesPerSlice (config : Config) : Nat :=
  (Timekeeper.start config.clockRate config.sliceLength config.maxLag 0).cyclesPerSlice

/-- A pacer with the settings of a configuration. -/
def Pacer.Fits (config : Config) : Pacer → Prop
  | .freeRun batch => batch = max config.batch.toNat 1
  | .cycleAccurate keeper =>
    keeper.SameSettings (.start config.clockRate config.sliceLength config.maxLag 0)

namespace Clock

/-! ## What can be asked -/

/-- What can be asked of a clock. Every slice may come with another step function. -/
inductive Request (σ : Type) where
  | slice (now : Nat) (step : σ → Cpu.Outcome × σ)
  | start (now : Nat)
  | pause
  | resume (now : Nat)
  | rebase (now : Nat)
  | setMode (mode : PacingMode) (now : Nat)

variable {σ : Type}

/-- Does what is asked. There is a report if a slice was run. -/
def perform (clock : Clock) (state : σ) : Request σ → Option SliceReport × Clock × σ
  | .slice now step =>
    let (report, after, state, _) := clock.slice now step state
    (if clock.running then some report else none, after, state)
  | .start now => (none, (clock.start now).1, state)
  | .pause => (none, clock.pause, state)
  | .resume now => (none, clock.resume now, state)
  | .rebase now => (none, clock.rebase now, state)
  | .setMode mode now => (none, (clock.setMode mode now).1, state)

/-- Does one thing after the other. Gives back the reports of the slices that were run. -/
def session (clock : Clock) (state : σ) : List (Request σ) → List SliceReport × Clock × σ
  | [] => ([], clock, state)
  | request :: rest =>
    let (report, clock, state) := clock.perform state request
    let (reports, last) := clock.session state rest
    (report.toList ++ reports, last)

/-! ## What a slice is -/

/-- A number of steps is enough for a slice: a batch of them, or what takes the cycles of a
slice. -/
def Enough (config : Config) (mode : PacingMode) (step : σ → Cpu.Outcome × σ) (state : σ)
    (count : Nat) : Prop :=
  match mode with
  | .freeRun => max config.batch.toNat 1 ≤ count
  | .cycleAccurate =>
    Pacer.maxInstructions ≤ count ∨ config.cyclesPerSlice ≤ cost step state count

/-- A slice of a running clock, with its report, the clock and the state after it, and the time at
which it was run. -/
structure RunsSlice (config : Config) (clock : Clock) (now : Nat) (step : σ → Cpu.Outcome × σ)
    (state : σ) (report : SliceReport) (after : Clock) (final : σ) (later : Nat) : Prop where
  /-- It goes exactly as far as it has to, or to the first step that is refused. -/
  exact : Exact step state (Enough config clock.mode step state) report final
  /-- What it reports fits into 32 bits and into 64. -/
  instructions_lt : report.instructions < UInt32.size
  cycles_lt : report.cycles < UInt64.size
  /-- The clock is paused then if a step was refused, and only then. -/
  paused : after.paused = report.refusedAt.isSome
  started : after.started = true
  /-- The pacer was asked once, and told of the cycles. -/
  pacer : after.pacer = (clock.pacer.allowance now).2.1.count report.cycles
  later : later = (clock.pacer.allowance now).2.2

/-! ## The settings -/

variable {config : Config} {clock after last : Clock} {pacer : Pacer} {now : Nat} {state : σ}
  {step : σ → Cpu.Outcome × σ}

/-- A clock with the settings of a configuration. -/
structure Fits (config : Config) (clock : Clock) : Prop where
  pacer : clock.pacer.Fits config
  hz : clock.hz = config.clockRate
  batch : clock.batch = config.batch
  sliceLength : clock.sliceLength = config.sliceLength
  maxLag : clock.maxLag = config.maxLag

theorem fits_pacer_rebase (h : pacer.Fits config) (now : Nat) : (pacer.rebase now).Fits config := by
  cases pacer with
  | freeRun batch => exact h
  | cycleAccurate keeper => exact Timekeeper.sameSettings_rebase.trans h

theorem fits_pacer_count (h : pacer.Fits config) (cycles : Nat) :
    (pacer.count cycles).Fits config := by
  cases pacer with
  | freeRun batch => exact h
  | cycleAccurate keeper => exact Timekeeper.sameSettings_count.trans h

theorem fits_pacer_allowance (h : pacer.Fits config) (now : Nat) :
    (pacer.allowance now).2.1.Fits config := by
  cases pacer with
  | freeRun batch => exact h
  | cycleAccurate keeper =>
    rw [Timekeeper.allowance_cycleAccurate]
    exact Timekeeper.sameSettings_synchronize.trans h

theorem fits_setMode (h : clock.Fits config) (mode : PacingMode) (now : Nat) :
    (clock.setMode mode now).1.Fits config := by
  obtain ⟨hpacer, hhz, hbatch, hlength, hlag⟩ := h
  simp only [setMode]
  split
  · exact ⟨hpacer, hhz, hbatch, hlength, hlag⟩
  · refine ⟨?_, hhz, hbatch, hlength, hlag⟩
    cases mode with
    | freeRun => exact congrArg (fun batch : UInt32 => max batch.toNat 1) hbatch
    | cycleAccurate => exact ⟨congrArg (fun hz : UInt64 => max hz.toNat 1) hhz, hlength, hlag⟩

/-- A clock has the settings that it was built with. -/
theorem fits_initial (config : Config) (now : Nat) : (initial config now).1.Fits config := by
  have hunstarted : (unstarted config).Fits config := ⟨rfl, rfl, rfl, rfl, rfl⟩
  unfold initial
  split
  · exact fits_setMode hunstarted .cycleAccurate now
  · exact hunstarted

theorem fits_slice (h : clock.Fits config) (now : Nat) (step : σ → Cpu.Outcome × σ) (state : σ) :
    (clock.slice now step state).2.1.Fits config := by
  simp only [slice]
  split
  · exact ⟨fits_pacer_count (fits_pacer_allowance h.pacer now) _, h.hz, h.batch, h.sliceLength,
      h.maxLag⟩
  · exact h

theorem fits_perform (h : clock.Fits config) (state : σ) (request : Request σ) :
    (clock.perform state request).2.1.Fits config := by
  have hrebase (now : Nat) : (clock.rebase now).Fits config :=
    ⟨fits_pacer_rebase h.pacer now, h.hz, h.batch, h.sliceLength, h.maxLag⟩
  cases request with
  | slice now step => exact fits_slice h now step state
  | pause => exact ⟨h.pacer, h.hz, h.batch, h.sliceLength, h.maxLag⟩
  | rebase now => exact hrebase now
  | setMode mode now => exact fits_setMode h mode now
  | start now | resume now =>
    obtain ⟨hpacer, hhz, hbatch, hlength, hlag⟩ := hrebase now
    exact ⟨hpacer, hhz, hbatch, hlength, hlag⟩

theorem fits_session (h : clock.Fits config) (state : σ) (requests : List (Request σ)) :
    (clock.session state requests).2.1.Fits config := by
  induction requests generalizing clock state with
  | nil => exact h
  | cons request rest ih => exact ih (fits_perform h state request) _

/-! ## Slices -/

/-- What is allowed is used up exactly by the numbers of steps that are enough. -/
theorem used_up_iff_enough (h : pacer.Fits config) (now : Nat) (step : σ → Cpu.Outcome × σ)
    (state : σ) (count : Nat) :
    (pacer.allowance now).1.instructions ≤ count ∨
        (pacer.allowance now).1.cycles ≤ cost step state count ↔
      Enough config pacer.mode step state count := by
  cases pacer with
  | freeRun batch =>
    obtain rfl : batch = max config.batch.toNat 1 := h
    -- steps that take all the cycles that 64 bits can count are more than a batch
    have hcost := cost_le step state (fun index => Nat.le_of_lt_succ (UInt8.toNat_lt _)) count
    have hbatch := config.batch.toNat_lt
    simp only [Timekeeper.allowance_eq, Pacer.mode, Enough, maxCount, UInt64.size]
    omega
  | cycleAccurate keeper =>
    have hslice : (keeper.synchronize now).1.cyclesPerSlice = config.cyclesPerSlice :=
      (Timekeeper.sameSettings_synchronize.trans h).cyclesPerSlice
    simp only [Timekeeper.allowance_cycleAccurate, Pacer.mode, Enough, hslice]

/-- As many steps as can be reported are enough for any slice. -/
theorem enough_maxInstructions (config : Config) (mode : PacingMode)
    (step : σ → Cpu.Outcome × σ) (state : σ) :
    Enough config mode step state Pacer.maxInstructions := by
  cases mode with
  | freeRun =>
    have hbatch := config.batch.toNat_lt
    simp only [Enough, Pacer.maxInstructions, UInt32.size]
    omega
  | cycleAccurate => exact .inl (Nat.le_refl _)

/-- A slice of a clock that runs goes exactly as far as it has to. -/
theorem runsSlice_of_fits (h : clock.Fits config) (hrunning : clock.running = true) (now : Nat)
    (step : σ → Cpu.Outcome × σ) (state : σ) :
    let result := clock.slice now step state
    RunsSlice config clock now step state result.1 result.2.1 result.2.2.1 result.2.2.2 := by
  obtain ⟨hstarted, hpaused⟩ := Bool.and_eq_true_iff.mp hrunning
  have hrun := exact_runSteps step (clock.pacer.allowance now).1.cycles
    (clock.pacer.allowance now).1.instructions state
  -- that the limits of the slice are used up means that enough has been carried out
  have hexact : Exact step state (Enough config clock.mode step state)
      (clock.slice now step state).1 (clock.slice now step state).2.2.1 := by
    rw [funext fun count => propext (used_up_iff_enough h.pacer now step state count)] at hrun
    simp only [slice, if_pos hrunning]
    exact hrun
  have hmost := hexact.instructions_le (enough_maxInstructions config clock.mode step state)
  have hcycles := cost_le step state (fun index => Nat.le_of_lt_succ (UInt8.toNat_lt _))
    (clock.slice now step state).1.instructions
  have hafter : (clock.slice now step state).2.1 =
      { clock with pacer := (clock.pacer.allowance now).2.1 }.account
        (clock.slice now step state).1 := by
    simp only [slice, if_pos hrunning]
  refine ⟨hexact, ?_, ?_, ?_, ?_, ?_, ?_⟩
  · simp only [Pacer.maxInstructions, UInt32.size] at hmost ⊢
    omega
  · -- a step takes less than 256 cycles, and there are too few steps for 64 bits to run over
    rw [hexact.cycles]
    simp only [Pacer.maxInstructions, UInt32.size] at hmost
    simp only [UInt64.size]
    omega
  · have hnot : clock.paused = false := by simpa using hpaused
    rw [hafter]
    simp [account, hnot]
  · rw [hafter]
    exact hstarted
  · rw [hafter]
    rfl
  · simp only [slice, if_pos hrunning]

/-- A paced slice is two calls of its timekeeper: it synchronizes first, and counts the cycles of
the report in the end. -/
theorem slice_eq_run {paced : Paced} (hpacer : clock.pacer = .cycleAccurate paced.keeper)
    (hrunning : clock.running = true) (step : σ → Cpu.Outcome × σ) (state : σ) :
    let result := clock.slice paced.now step state
    let final := paced.run [.synchronize, .count result.1.cycles]
    result.2.1.pacer = .cycleAccurate final.keeper ∧ result.2.2.2 = final.now := by
  intro result final
  have hallowed := Paced.allowance_eq paced
  rw [← hpacer] at hallowed
  -- parts are taken of variables, since the kernel must not see how time is synchronized
  have hparts {allowed : Allowance × Pacer × Nat} {allowance : Allowance} {pacer : Pacer}
      {later : Nat} (h : allowed = (allowance, pacer, later)) :
      allowed.2.1 = pacer ∧ allowed.2.2 = later := by
    subst h
    exact ⟨rfl, rfl⟩
  have hcount (ready : Paced) (cycles : Nat) :
      (ready.after (.count cycles)).keeper = ready.keeper.count cycles ∧
        (ready.after (.count cycles)).now = ready.now := ⟨rfl, rfl⟩
  obtain ⟨hready, hlater⟩ := hparts hallowed
  obtain ⟨hkeeper, hnow⟩ := hcount (paced.after .synchronize) result.1.cycles
  have hfinal : final = (paced.after .synchronize).after (.count result.1.cycles) := rfl
  constructor
  · calc result.2.1.pacer
      _ = (clock.pacer.allowance paced.now).2.1.count result.1.cycles := by
        simp only [result, slice, if_pos hrunning]
        rfl
      _ = .cycleAccurate ((paced.after .synchronize).keeper.count result.1.cycles) := by
        rw [hready]
        rfl
      _ = .cycleAccurate final.keeper := by rw [hfinal, hkeeper]
  · calc result.2.2.2
      _ = (clock.pacer.allowance paced.now).2.2 := by simp only [result, slice, if_pos hrunning]
      _ = final.now := by rw [hfinal, hnow, hlater]

/-- A paced slice goes on past its cycles by less than a step, however late it is. -/
theorem cycles_slice_lt {keeper : Timekeeper} (hpacer : clock.pacer = .cycleAccurate keeper)
    {most : Nat} (hmost : ∀ state, (step state).1.cycles.toNat ≤ most) :
    (clock.slice now step state).1.cycles < keeper.cyclesPerSlice + most := by
  by_cases hrunning : clock.running = true
  · have hallowed : (clock.pacer.allowance now).1 =
        ⟨Pacer.maxInstructions, keeper.cyclesPerSlice⟩ := by
      rw [hpacer, Timekeeper.allowance_cycleAccurate,
        Timekeeper.sameSettings_synchronize.cyclesPerSlice]
    simp only [slice, if_pos hrunning, hallowed]
    exact (exact_runSteps step keeper.cyclesPerSlice Pacer.maxInstructions state).cycles_lt
      (fun _ => hmost _) keeper.cyclesPerSlice_pos fun _ => .inr
  · simp only [slice, if_neg hrunning]
    exact Nat.lt_of_lt_of_le keeper.cyclesPerSlice_pos (Nat.le_add_right _ most)

/-! ## Sums -/

/-- A clock has added some reports to its sums. -/
structure Adds (clock after : Clock) (reports : List SliceReport) : Prop where
  cyclesRun : after.cyclesRun = clock.cyclesRun + (reports.map SliceReport.cycles).sum.toUInt64
  instructionsRun :
    after.instructionsRun = clock.instructionsRun + (reports.map SliceReport.instructions).sum.toUInt64
  slices : after.slices = clock.slices + reports.length.toUInt64

theorem Adds.nil (hcycles : after.cyclesRun = clock.cyclesRun)
    (hinstructions : after.instructionsRun = clock.instructionsRun)
    (hslices : after.slices = clock.slices) : Adds clock after [] := by
  refine ⟨?_, ?_, ?_⟩
  · exact hcycles.trans (UInt64.add_zero _).symm
  · exact hinstructions.trans (UInt64.add_zero _).symm
  · exact hslices.trans (UInt64.add_zero _).symm

theorem Adds.append {earlier later : List SliceReport} (h : Adds clock after earlier)
    (h' : Adds after last later) : Adds clock last (earlier ++ later) := by
  obtain ⟨hcycles, hinstructions, hslices⟩ := h
  obtain ⟨hcycles', hinstructions', hslices'⟩ := h'
  refine ⟨?_, ?_, ?_⟩
  · rw [hcycles', hcycles, List.map_append, List.sum_append, UInt64.add_assoc]
    exact congrArg (clock.cyclesRun + ·) (UInt64.ofNat_add _ _).symm
  · rw [hinstructions', hinstructions, List.map_append, List.sum_append, UInt64.add_assoc]
    exact congrArg (clock.instructionsRun + ·) (UInt64.ofNat_add _ _).symm
  · rw [hslices', hslices, List.length_append, UInt64.add_assoc]
    exact congrArg (clock.slices + ·) (UInt64.ofNat_add _ _).symm

/-- The sums of a clock that has run nothing yet. -/
theorem sums_initial (config : Config) (now : Nat) :
    (initial config now).1.cyclesRun = 0 ∧ (initial config now).1.instructionsRun = 0 ∧
      (initial config now).1.slices = 0 := by
  simp only [initial, setMode]
  split
  · split <;> exact ⟨rfl, rfl, rfl⟩
  · exact ⟨rfl, rfl, rfl⟩

theorem adds_perform (clock : Clock) (state : σ) (request : Request σ) :
    Adds clock (clock.perform state request).2.1 (clock.perform state request).1.toList := by
  cases request with
  | slice now step =>
    simp only [perform]
    by_cases hrunning : clock.running = true
    · simp only [slice, if_pos hrunning]
      refine ⟨?_, ?_, rfl⟩
      · simp [account]
      · simp [account]
    · simp only [slice, if_neg hrunning]
      exact .nil rfl rfl rfl
  | setMode mode now =>
    simp only [perform, setMode]
    split <;> exact .nil rfl rfl rfl
  | _ => exact .nil rfl rfl rfl

/-- The sums of a clock are those of the reports of its slices. -/
theorem adds_session (clock : Clock) (state : σ) (requests : List (Request σ)) :
    Adds clock (clock.session state requests).2.1 (clock.session state requests).1 := by
  induction requests generalizing clock state with
  | nil => exact .nil rfl rfl rfl
  | cons request rest ih => exact (adds_perform clock state request).append (ih _ _)

end Clock

end AppleOne
