import AppleOne.Proofs.Clock.Attempts
import AppleOne.Proofs.Cpu.Passage

/-!
# Runs with a budget of cycles

A processor that is given a number of cycles takes steps until its counter has gone on by that
number, or until a step is refused. Since every step that is carried out takes two cycles at
least, there is an end to that, whatever the program does and however it changes itself. Since
none takes more than seven, the end is at most six cycles late.

The target is a state of the counter, which has 64 bits, so it is out of reach if the counter
passes its end before. A run that keeps clear of the end goes as a run of the clock with as many
cycles.

## Main definitions

* `Spends`: a run that takes steps until its budget is used up or one is refused.

## Main results

* `cost_step`: the cycles of a step, and the counter after it.
* `runUntil_eq_runSteps`: a run to a target is a run of the clock.
* `spends_runFor`: how far a run goes, what it comes to and what it reports.
-/

namespace AppleOne.Cpu

open Clock (reached outcomeOf cost)

variable {M σ : Type} [Memory M] {cpu : Cpu M σ}

/-! ## What steps cost -/

/-- A step that is carried out takes between two and seven cycles and a refused one none. The
counter goes on by that. -/
theorem cost_step (cpu : Cpu M σ) :
    (cpu.step.1.wasRefused = false → 2 ≤ cpu.step.1.cycles.toNat) ∧
      cpu.step.1.cycles.toNat ≤ 7 ∧
      cpu.step.2.registers.cycles.toNat =
        (cpu.registers.cycles.toNat + cpu.step.1.cycles.toNat) % UInt64.size := by
  obtain ⟨memo, hstep | hstep⟩ := cpu.step_cases
  · obtain ⟨hlow, hhigh, hcycles⟩ := cycles_advance { cpu with bypass := false, memo }
    rw [hstep]
    exact ⟨fun _ => hlow, hhigh, hcycles⟩
  · rw [hstep]
    exact ⟨nofun, Nat.zero_le 7, (Nat.mod_eq_of_lt (UInt64.toNat_lt _)).symm⟩

/-- Steps that are all carried out take two cycles each at least. -/
theorem two_mul_le_cost {count : Nat}
    (hran : ∀ index < count, (outcomeOf step cpu index).wasRefused = false) :
    2 * count ≤ cost step cpu count := by
  induction count with
  | zero => exact Nat.zero_le _
  | succ count ih =>
    have hbefore := ih fun index hindex => hran index (Nat.lt_succ_of_lt hindex)
    have hlast : 2 ≤ (outcomeOf step cpu count).cycles.toNat :=
      (cost_step _).1 (hran count (Nat.lt_succ_self count))
    rw [Clock.cost_succ_last]
    omega

/-- The counter goes on by the cycles of all steps, as long as it does not come to its end. -/
theorem cycles_reached (cpu : Cpu M σ) (count : Nat)
    (hfits : cpu.registers.cycles.toNat + cost step cpu count < UInt64.size) :
    (reached step cpu count).registers.cycles.toNat =
      cpu.registers.cycles.toNat + cost step cpu count := by
  induction count with
  | zero => rfl
  | succ count ih =>
    have hcost := Clock.cost_succ_last step cpu count
    obtain ⟨-, -, hcycles⟩ := cost_step (reached step cpu count)
    rw [Clock.reached_succ_last, hcycles, ih (by omega), hcost, ← Nat.add_assoc]
    exact Nat.mod_eq_of_lt (by rw [Nat.add_assoc]; exact hcost ▸ hfits)

/-! ## Runs to a target -/

/-- A run to a target goes like a run of the clock, if the budget is that of the target and the
counter does not come to its end on the way. -/
theorem runUntil_eq_runSteps {start budget : Nat} {target : UInt64}
    (htarget : target.toNat = start + budget) (hfits : start + budget + 7 < UInt64.size)
    (steps : Nat) (report : SliceReport)
    (hcycles : cpu.registers.cycles.toNat = start + report.cycles) :
    cpu.runUntil target steps = (Clock.runSteps step budget steps report cpu).2 := by
  induction steps generalizing cpu report with
  | zero => rfl
  | succ steps ih =>
    -- both runs compare the same numbers, one of them counted from the start
    have hcompare : cpu.registers.cycles < target ↔ report.cycles < budget := by
      rw [UInt64.lt_iff_toNat_lt, hcycles, htarget]
      omega
    by_cases hbudget : report.cycles < budget
    · obtain ⟨-, hmost, hafter⟩ := cost_step cpu
      simp only [runUntil, Clock.runSteps, if_pos hbudget, if_pos (hcompare.mpr hbudget)]
      rcases hstep : cpu.step with ⟨spent | pc, after⟩
      · rw [hstep] at hmost hafter
        have hspent : (Outcome.ran spent).cycles.toNat = spent.toNat := rfl
        rw [hspent] at hmost hafter
        refine ih (report.plus 1 spent.toNat) ?_
        rw [hafter, hcycles, Nat.mod_eq_of_lt (by omega), Nat.add_assoc]
        rfl
      · rfl
    · simp only [runUntil, Clock.runSteps, if_neg hbudget, if_neg (hcompare.not.mpr hbudget)]

/-- There is a reason to end a run after a number of steps: the budget is used up, or one of the
steps was refused. -/
def EndsRun (cpu : Cpu M σ) (budget count : Nat) : Prop :=
  budget ≤ cost step cpu count ∨
    ∃ index < count, (outcomeOf step cpu index).wasRefused = true

/-- A run that takes one step after another until as many cycles have passed as it was given, or
until a step was refused, whichever is first. -/
structure Spends (cpu : Cpu M σ) (budget count consumed : Nat) (final : Cpu M σ) : Prop where
  /-- The run ends the first time that there is a reason to. -/
  isLeast : IsLeast {count | cpu.EndsRun budget count} count
  /-- It does what its steps do, and nothing else. -/
  final_eq : final = reached step cpu count
  /-- It comes to its end within half as many steps as there are cycles. -/
  steps_le : 2 * count ≤ budget + 1
  /-- The cycles that it reports are those of its steps. -/
  consumed_eq : consumed = cost step cpu count
  /-- They are also what the counter has gone on by. -/
  cycles_eq : final.registers.cycles.toNat = cpu.registers.cycles.toNat + consumed
  /-- If no step was refused the budget is used up, and exceeded by less than a step. -/
  not_refused : (∀ index < count, (outcomeOf step cpu index).wasRefused = false) →
    budget ≤ consumed ∧ consumed ≤ budget + 6
  /-- If one was refused then some of the budget is left. -/
  refused : (∃ index < count, (outcomeOf step cpu index).wasRefused = true) → consumed < budget

variable {budget count : Nat}

/-- As long as there was no reason to end the run, every step was carried out. -/
theorem not_refused_of_lt (hneeded : ∀ index < count, ¬ cpu.EndsRun budget index)
    {index : Nat} (hindex : index + 1 < count) :
    (outcomeOf step cpu index).wasRefused = false := by
  by_contra hrefused
  exact hneeded _ hindex (.inr ⟨index, Nat.lt_succ_self index, by simpa using hrefused⟩)

/-- As long as there was no reason to end the run, some of the budget was left, and so there were
not many steps. -/
theorem two_mul_le_of_needed (hneeded : ∀ index < count, ¬ cpu.EndsRun budget index) :
    2 * count ≤ budget + 1 := by
  cases count with
  | zero => omega
  | succ count =>
    have hcost : 2 * count ≤ cost step cpu count :=
      two_mul_le_cost fun _ hindex => not_refused_of_lt hneeded (Nat.succ_lt_succ hindex)
    have hleft : cost step cpu count < budget :=
      Nat.not_le.mp fun hspent => hneeded count (Nat.lt_succ_self count) (.inl hspent)
    omega

/-- No run goes on past its budget by a whole step. -/
theorem cost_le_of_needed (hneeded : ∀ index < count, ¬ cpu.EndsRun budget index) :
    cost step cpu count ≤ budget + 6 := by
  cases count with
  | zero => exact Nat.zero_le _
  | succ count =>
    have hleft : cost step cpu count < budget :=
      Nat.not_le.mp fun hspent => hneeded count (Nat.lt_succ_self count) (.inl hspent)
    obtain ⟨-, hmost, -⟩ := cost_step (reached step cpu count)
    have hlast : (outcomeOf step cpu count).cycles.toNat ≤ 7 := hmost
    rw [Clock.cost_succ_last]
    omega

/-- A refused step leaves some of the budget, and takes none of it. -/
theorem cost_lt_of_refused (hneeded : ∀ index < count, ¬ cpu.EndsRun budget index)
    (hrefused : ∃ index < count, (outcomeOf step cpu index).wasRefused = true) :
    cost step cpu count < budget := by
  obtain ⟨index, hindex, hrefused⟩ := hrefused
  -- the refused step was the last one
  obtain rfl | hlater := Nat.eq_or_lt_of_le (Nat.succ_le_of_lt hindex)
  · have hleft : cost step cpu index < budget :=
      Nat.not_le.mp fun hspent => hneeded index hindex (.inl hspent)
    rw [Clock.cost_succ_last]
    rcases houtcome : outcomeOf step cpu index with spent | pc
    · rw [houtcome] at hrefused
      cases hrefused
    · exact hleft
  · exact absurd (.inr ⟨index, Nat.lt_succ_self index, hrefused⟩) (hneeded _ hlater)

/-- A run of the clock with as many steps as a processor may take at most ends the first time
that there is a reason to. It never ends because its steps are used up. -/
theorem exists_isLeast_runSteps (cpu : Cpu M σ) (hbudget : budget < UInt64.size) :
    ∃ count, IsLeast {count | cpu.EndsRun budget count} count ∧
      (Clock.runSteps step budget maxSteps .empty cpu).2 = reached step cpu count := by
  have hexact := Clock.exact_runSteps step budget maxSteps cpu
  generalize Clock.runSteps step budget maxSteps .empty cpu = result at hexact ⊢
  obtain ⟨-, hran, hcomplete, hrefused⟩ := hexact
  rcases hat : result.1.refusedAt with - | pc
  · -- no step was refused, so the run had enough: of cycles, since steps that are needed are too
    -- few to use up their number
    obtain ⟨⟨henough, hleast⟩, hfinal⟩ := hcomplete hat
    have hneeded : ∀ index < result.1.instructions, ¬ cpu.EndsRun budget index := by
      rintro index hindex (hspent | ⟨other, hother, hrefused⟩)
      · exact Nat.not_le.mpr hindex (hleast (.inr hspent))
      · rw [hran other (hother.trans hindex)] at hrefused
        cases hrefused
    have hsteps := two_mul_le_of_needed hneeded
    refine ⟨_, ⟨?_, fun count hends => Nat.not_lt.mp fun hlt => hneeded count hlt hends⟩, hfinal⟩
    refine .inl (henough.resolve_left fun hall => ?_)
    unfold maxSteps at hall
    omega
  · -- the refused step is the last, and it counts
    obtain ⟨hnot, houtcome, hfinal⟩ := hrefused pc hat
    refine ⟨_, ⟨.inr ⟨_, Nat.lt_succ_self _, by rw [houtcome]; rfl⟩, ?_⟩, hfinal⟩
    rintro count (hspent | ⟨index, hindex, hrefused⟩)
    · exact Nat.not_le.mp fun hle => hnot count hle (.inr hspent)
    · refine Nat.succ_le_of_lt (Nat.lt_of_le_of_lt (Nat.not_lt.mp fun hlt => ?_) hindex)
      rw [hran index hlt] at hrefused
      cases hrefused

/-- Every run with a budget comes to an end at the first step that uses up the budget or is
refused. It has done then what its steps do, and reports their cycles. Without a budget no step is
taken and the hook is not asked. -/
theorem spends_runFor (cpu : Cpu M σ) (budget : UInt64)
    (hfits : cpu.registers.cycles.toNat + budget.toNat + 7 < UInt64.size) :
    (∃ count,
      cpu.Spends budget.toNat count (cpu.runFor budget).1.toNat (cpu.runFor budget).2) ∧
    cpu.runFor 0 = (0, cpu) := by
  have htarget : (cpu.registers.cycles + budget).toNat =
      cpu.registers.cycles.toNat + budget.toNat := by
    rw [UInt64.toNat_add]
    exact Nat.mod_eq_of_lt (Nat.lt_of_le_of_lt (Nat.le_add_right _ 7) hfits)
  obtain ⟨count, hleast, hrun⟩ := exists_isLeast_runSteps cpu (UInt64.toNat_lt budget)
  have hneeded : ∀ index < count, ¬ cpu.EndsRun budget.toNat index :=
    fun index hindex hends => Nat.not_le.mpr hindex (hleast.2 hends)
  have hmost := cost_le_of_needed hneeded
  have hfinal : (cpu.runFor budget).2 = reached step cpu count :=
    (runUntil_eq_runSteps htarget hfits maxSteps .empty rfl).trans hrun
  have hcycles := cycles_reached cpu count (by omega)
  have hconsumed : (cpu.runFor budget).1.toNat = cost step cpu count := by
    have hdifference : (cpu.runFor budget).1 =
        (cpu.runFor budget).2.registers.cycles - cpu.registers.cycles := rfl
    rw [hdifference, hfinal, UInt64.toNat_sub_of_le _ _ ?_, hcycles, Nat.add_sub_cancel_left]
    exact UInt64.le_iff_toNat_le.mpr (hcycles ▸ Nat.le_add_right _ _)
  refine ⟨⟨count, ⟨hleast, hfinal, two_mul_le_of_needed hneeded, hconsumed, ?_, ?_, ?_⟩⟩, ?_⟩
  · rw [hfinal, hcycles, hconsumed]
  · intro hran
    rw [hconsumed]
    refine ⟨hleast.1.resolve_right ?_, hmost⟩
    rintro ⟨index, hindex, hrefused⟩
    rw [hran index hindex] at hrefused
    cases hrefused
  · rw [hconsumed]
    exact cost_lt_of_refused hneeded
  · simp [runFor, runUntil, maxSteps, UInt64.size]

/-- A processor that finds nothing but zeros, with a hook that lets no step be taken at the
start of memory, has ten cycles to spend. -/
theorem spends_runFor_zeros :
    let cpu : Cpu PlainMemory Nat :=
      { registers := { Registers.initial with pc := 0x0200 }
        memory := PlainMemory.zeros 0
        hook := some fun pc asked => (pc != 0, asked + 1)
        memo := 0 }
    cpu.registers.cycles.toNat + (10 : UInt64).toNat + 7 < UInt64.size ∧
      ∃ count, cpu.Spends 10 count (cpu.runFor 10).1.toNat (cpu.runFor 10).2 := by
  intro cpu
  have hfits : cpu.registers.cycles.toNat + (10 : UInt64).toNat + 7 < UInt64.size := by decide
  exact ⟨hfits, (spends_runFor cpu 10 hfits).1⟩

end AppleOne.Cpu
