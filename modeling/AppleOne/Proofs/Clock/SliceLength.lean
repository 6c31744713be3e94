import AppleOne.Proofs.Clock.Session

/-!
# The length of a paced slice

The cycles of a paced slice are the product of the rate and of the length, in whole cycles, and at
least one. The product stops at the largest number of 64 bits, and so greater factors never come to
less. But before that the length in microseconds is cut to 64 bits by dropping what is above them.
A slice that is longer than 64 bits can tell may therefore take fewer cycles than a short one.

Where this does not happen is known exactly. No slice of a lower rate and a smaller length takes
more cycles if the length fits into 64 bits, or if what is left of it comes to the most cycles that
any slice can take, and in no other case.

## Main definitions

* `Config.longestMillis`: the longest slice that fits into 64 bits.
* `Config.mostCycles`: the most cycles that any slice can take.
* `Config.Paces`: the timekeepers that the clocks of a configuration have.

## Main results

* `Config.cyclesPerSlice_mono`, `Config.cyclesPerSlice_le_product`, `Config.cyclesPerSlice_le_most`:
  the order of the cycles and their bounds.
* `Config.cyclesPerSlice_of_longest`: the longest slice that fits takes the most cycles.
* `Config.forall_cyclesPerSlice_le_iff`: where no smaller settings come to more.
* `Config.paced_slices_grow`: all of this for the pacers of clocks.
-/

namespace AppleOne

namespace Config

/-- The longest slice in milliseconds whose microseconds fit into 64 bits. -/
def longestMillis : UInt64 := 18446744073709551

/-- The most cycles that a paced slice can take. -/
def mostCycles : Nat := maxCount / 1000000

/-- A timekeeper is the pacer of a clock with this configuration, at any time and after anything
that was asked of the clock. -/
def Paces (config : Config) (keeper : Timekeeper) : Prop :=
  ∃ (σ : Type) (now : Nat) (state : σ) (requests : List (Clock.Request σ)),
    ((Clock.initial config now).1.session state requests).2.1.pacer = .cycleAccurate keeper

variable {config short long : Config} {keeper other : Timekeeper}

/-! ## The length in microseconds -/

theorem toNat_wholeSliceMillis (config : Config) :
    config.wholeSliceMillis.toNat = max config.sliceMillis.toNat 1 := by
  -- the lemmas about `max` ask for a linear order, which words have only by way of their values
  have hwhole : config.wholeSliceMillis =
      if config.sliceMillis ≤ 1 then 1 else config.sliceMillis := rfl
  have hle : config.sliceMillis ≤ 1 ↔ config.sliceMillis.toNat ≤ 1 := UInt64.le_iff_toNat_le
  rw [hwhole]
  split
  · next hshort => exact (Nat.max_eq_right (hle.mp hshort)).symm
  · next hlong => exact (Nat.max_eq_left (Nat.le_of_not_le (hlong ∘ hle.mpr))).symm

theorem sliceLength_eq (config : Config) :
    config.sliceLength = max config.sliceMillis.toNat 1 * 1000 := by
  rw [sliceLength, micros, toNat_wholeSliceMillis]

theorem sliceLength_le (h : short.sliceMillis ≤ long.sliceMillis) :
    short.sliceLength ≤ long.sliceLength := by
  rw [sliceLength_eq, sliceLength_eq]
  exact Nat.mul_le_mul_right 1000 (max_le_max_right 1 (UInt64.le_iff_toNat_le.mp h))

theorem sliceLength_of_longest (h : config.sliceMillis = longestMillis) :
    config.sliceLength = 18446744073709551000 := by
  rw [sliceLength_eq, h]
  rfl

/-- The lengths that do not fit are those beyond the longest that does. -/
theorem longestMillis_le (h : UInt64.size ≤ config.sliceLength) :
    longestMillis ≤ config.sliceMillis := by
  have hlongest : longestMillis.toNat = 18446744073709551 := rfl
  rw [sliceLength_eq, UInt64.size] at h
  rw [UInt64.le_iff_toNat_le, hlongest]
  omega

/-! ## The cycles of a slice -/

theorem cyclesPerSlice_eq (config : Config) :
    config.cyclesPerSlice =
      max (saturate (config.sliceLength % UInt64.size * max config.clockRate.toNat 1) / 1000000)
        1 := by
  simp only [cyclesPerSlice, Timekeeper.cyclesPerSlice, Timekeeper.start]

/-- The cycles keep the order of the rate and of what is left of the length. -/
theorem cyclesPerSlice_mono (hrate : short.clockRate ≤ long.clockRate)
    (hlength : short.sliceLength % UInt64.size ≤ long.sliceLength % UInt64.size) :
    short.cyclesPerSlice ≤ long.cyclesPerSlice := by
  have hhz : max short.clockRate.toNat 1 ≤ max long.clockRate.toNat 1 :=
    max_le_max_right 1 (UInt64.le_iff_toNat_le.mp hrate)
  have hproduct := saturate_mono (Nat.mul_le_mul hlength hhz)
  rw [cyclesPerSlice_eq, cyclesPerSlice_eq]
  exact max_le_max_right 1 (Nat.div_le_div_right hproduct)

/-- Cutting the length and the product to 64 bits makes neither of them greater. -/
theorem cyclesPerSlice_le_product (config : Config) :
    config.cyclesPerSlice ≤
      max 1 (max 1 config.sliceMillis.toNat * max 1 config.clockRate.toNat / 1000) := by
  have hproduct : saturate (config.sliceLength % UInt64.size * max config.clockRate.toNat 1) ≤
      max 1 config.sliceMillis.toNat * max 1 config.clockRate.toNat * 1000 := by
    calc saturate (config.sliceLength % UInt64.size * max config.clockRate.toNat 1)
      _ ≤ config.sliceLength % UInt64.size * max config.clockRate.toNat 1 := saturate_le _
      _ ≤ config.sliceLength * max config.clockRate.toNat 1 :=
        Nat.mul_le_mul_right _ (Nat.mod_le _ _)
      _ = max 1 config.sliceMillis.toNat * max 1 config.clockRate.toNat * 1000 := by
        rw [sliceLength_eq, Nat.mul_right_comm, Nat.max_comm, Nat.max_comm _ 1]
  rw [cyclesPerSlice_eq, Nat.max_comm _ 1]
  refine max_le_max_left 1 (Nat.le_trans (Nat.div_le_div_right hproduct) (Nat.le_of_eq ?_))
  exact Nat.mul_div_mul_right _ 1000 (by decide : 0 < 1000)

theorem cyclesPerSlice_le_most (config : Config) : config.cyclesPerSlice ≤ mostCycles := by
  rw [cyclesPerSlice_eq]
  exact Nat.max_le.mpr ⟨Nat.div_le_div_right (Nat.min_le_right _ _), by decide⟩

/-- The longest slice that fits takes the most cycles at any rate. -/
theorem cyclesPerSlice_of_longest (h : config.sliceMillis = longestMillis) :
    config.cyclesPerSlice = mostCycles := by
  refine Nat.le_antisymm config.cyclesPerSlice_le_most ?_
  have hlength : config.sliceLength % UInt64.size = 18446744073709551000 := by
    rw [sliceLength_of_longest h]
    rfl
  have hproduct : saturate 18446744073709551000 ≤
      saturate (18446744073709551000 * max config.clockRate.toNat 1) :=
    saturate_mono (Nat.le_mul_of_pos_right _ (Nat.le_max_right _ 1))
  rw [cyclesPerSlice_eq, hlength]
  -- 64 bits hold too little beyond this length for a rate to add another cycle
  calc mostCycles
    _ = saturate 18446744073709551000 / 1000000 := by decide +kernel
    _ ≤ _ := Nat.div_le_div_right hproduct
    _ ≤ _ := Nat.le_max_left _ 1

/-- No smaller settings come to more cycles if the length fits into 64 bits, or if there are no more
cycles to come to. Otherwise the longest slice that fits does. -/
theorem forall_cyclesPerSlice_le_iff :
    (∀ short : Config, short.clockRate ≤ long.clockRate → short.sliceMillis ≤ long.sliceMillis →
        short.cyclesPerSlice ≤ long.cyclesPerSlice) ↔
      long.sliceLength < UInt64.size ∨ long.cyclesPerSlice = mostCycles := by
  constructor
  · intro hgreatest
    rcases Nat.lt_or_ge long.sliceLength UInt64.size with hfits | hlonger
    · exact .inl hfits
    · -- the longest slice that fits is among the smaller settings then
      have hlongest := hgreatest { long with sliceMillis := longestMillis } (UInt64.le_refl _)
        (longestMillis_le hlonger)
      rw [cyclesPerSlice_of_longest rfl] at hlongest
      exact .inr (Nat.le_antisymm long.cyclesPerSlice_le_most hlongest)
  · rintro (hfits | hmost) short hrate hmillis
    · have hlength := sliceLength_le hmillis
      refine cyclesPerSlice_mono hrate ?_
      -- neither length loses anything
      rwa [Nat.mod_eq_of_lt (Nat.lt_of_le_of_lt hlength hfits), Nat.mod_eq_of_lt hfits]
    · rw [hmost]
      exact short.cyclesPerSlice_le_most

/-! ## The timekeepers of clocks -/

/-- Whatever was asked of a clock, its slices take the cycles of its configuration. -/
theorem Paces.cyclesPerSlice (h : config.Paces keeper) :
    keeper.cyclesPerSlice = config.cyclesPerSlice := by
  obtain ⟨σ, now, state, requests, hpacer⟩ := h
  have hfits := (Clock.fits_session (Clock.fits_initial config now) state requests).pacer
  rw [hpacer] at hfits
  exact Timekeeper.SameSettings.cyclesPerSlice hfits

/-- Every configuration has a clock that is paced. -/
theorem exists_paces (config : Config) : ∃ keeper, config.Paces keeper := by
  refine ⟨.start config.clockRate config.sliceLength config.maxLag 0, Unit, 0, (),
    [.setMode .cycleAccurate 0], ?_⟩
  cases hpaced : config.cycleAccurate <;>
    simp [Clock.session, Clock.perform, Clock.initial, Clock.setMode, Clock.mode, Clock.pacerFor,
      Clock.unstarted, Pacer.mode, Pacer.unpaced, hpaced]

theorem forall_paces_le_iff {most : Nat} :
    (∀ keeper, config.Paces keeper → keeper.cyclesPerSlice ≤ most) ↔
      config.cyclesPerSlice ≤ most := by
  constructor
  · intro h
    obtain ⟨keeper, hkeeper⟩ := config.exists_paces
    rw [← hkeeper.cyclesPerSlice]
    exact h keeper hkeeper
  · intro h keeper hkeeper
    rw [hkeeper.cyclesPerSlice]
    exact h

/-- A slice of a paced clock takes one cycle at least, and no more than run in its time. With a
higher rate and a greater length it takes no less, if the length fits into 64 bits. If it does not
fit then there are smaller settings whose slices take more cycles, unless the slice happens to take
the most that there are. -/
theorem paced_slices_grow (hrate : short.clockRate ≤ long.clockRate)
    (hmillis : short.sliceMillis ≤ long.sliceMillis)
    (hkeeper : short.Paces keeper) (hother : long.Paces other) :
    (1 ≤ keeper.cyclesPerSlice ∧ keeper.cyclesPerSlice ≤
      max 1 (max 1 short.sliceMillis.toNat * max 1 short.clockRate.toNat / 1000)) ∧
    (1 ≤ other.cyclesPerSlice ∧ other.cyclesPerSlice ≤
      max 1 (max 1 long.sliceMillis.toNat * max 1 long.clockRate.toNat / 1000)) ∧
    (long.sliceLength < UInt64.size → keeper.cyclesPerSlice ≤ other.cyclesPerSlice) ∧
    ((∀ config : Config, config.clockRate ≤ long.clockRate →
        config.sliceMillis ≤ long.sliceMillis →
        ∀ keeper, config.Paces keeper → keeper.cyclesPerSlice ≤ other.cyclesPerSlice) ↔
      long.sliceLength < UInt64.size ∨ other.cyclesPerSlice = mostCycles) := by
  refine ⟨⟨keeper.cyclesPerSlice_pos, ?_⟩, ⟨other.cyclesPerSlice_pos, ?_⟩, fun hfits => ?_, ?_⟩
  · rw [hkeeper.cyclesPerSlice]
    exact short.cyclesPerSlice_le_product
  · rw [hother.cyclesPerSlice]
    exact long.cyclesPerSlice_le_product
  · rw [hkeeper.cyclesPerSlice, hother.cyclesPerSlice]
    exact forall_cyclesPerSlice_le_iff.mpr (.inl hfits) short hrate hmillis
  · simp only [forall_paces_le_iff, hother.cyclesPerSlice]
    exact forall_cyclesPerSlice_le_iff

/-- A clock that is paced from some time after its start on, and one that is paced from the
beginning, at twice the rate and with longer slices. -/
theorem paced_slices_grow_with_rate :
    let short : Config := {}
    let long : Config := { cycleAccurate := true, clockRate := 2000000, sliceMillis := 20 }
    let keeper : Timekeeper := ⟨1000000, 16000, 100000, 5, 0, 0⟩
    let other : Timekeeper := ⟨2000000, 20000, 100000, 0, 0, 0⟩
    (short.clockRate ≤ long.clockRate ∧ short.sliceMillis ≤ long.sliceMillis ∧
      short.Paces keeper ∧ long.Paces other) ∧
    keeper.cyclesPerSlice ≤ 16000 ∧ other.cyclesPerSlice ≤ 40000 ∧
    keeper.cyclesPerSlice ≤ other.cyclesPerSlice := by
  intro short long keeper other
  have hkeeper : short.Paces keeper :=
    ⟨Unit, 0, (), [.start 1, .pause, .setMode .cycleAccurate 5, .resume 5], by decide +kernel⟩
  have hother : long.Paces other := ⟨Unit, 0, (), [], by decide +kernel⟩
  have hrate : short.clockRate ≤ long.clockRate := by decide
  have hmillis : short.sliceMillis ≤ long.sliceMillis := by decide
  obtain ⟨⟨-, hshort⟩, ⟨-, hlong⟩, hgrow, -⟩ := paced_slices_grow hrate hmillis hkeeper hother
  exact ⟨⟨hrate, hmillis, hkeeper, hother⟩, hshort.trans (by decide), hlong.trans (by decide),
    hgrow (by decide +kernel)⟩

/-- The shortest slice whose length does not fit into 64 bits takes fewer cycles than one of sixteen
milliseconds. -/
theorem paced_slices_shrink :
    let short : Config := { cycleAccurate := true }
    let long : Config := { cycleAccurate := true, sliceMillis := 18446744073709552 }
    let keeper : Timekeeper := ⟨1000000, 16000, 100000, 0, 0, 0⟩
    let other : Timekeeper := ⟨1000000, 18446744073709552000, 100000, 0, 0, 0⟩
    short.clockRate ≤ long.clockRate ∧ short.sliceMillis ≤ long.sliceMillis ∧
      short.Paces keeper ∧ long.Paces other ∧
      keeper.cyclesPerSlice = 16000 ∧ other.cyclesPerSlice = 384 ∧
      ¬ keeper.cyclesPerSlice ≤ other.cyclesPerSlice := by
  intro short long keeper other
  have hkeeper : short.Paces keeper := ⟨Unit, 0, (), [], by decide +kernel⟩
  have hother : long.Paces other := ⟨Unit, 0, (), [], by decide +kernel⟩
  have hshort : keeper.cyclesPerSlice = 16000 := by decide +kernel
  have hlong : other.cyclesPerSlice = 384 := by decide +kernel
  exact ⟨by decide, by decide, hkeeper, hother, hshort, hlong, by omega⟩

end Config

end AppleOne
