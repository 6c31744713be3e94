import AppleOne.Clock
import Mathlib.Algebra.BigOperators.Intervals
import Mathlib.Logic.Function.Iterate

/-!
# Attempts at a step

A run of the clock attempts one step after another, until it has done enough or an attempt is
refused. What the attempts come to does not depend on where the run ends: they are the step
function applied again and again, and each of them has its cost. So it can be said without the
run how far it has to go: to the first number of attempts that is enough, and no further than to
the first refusal.

## Main definitions

* `Clock.reached`, `Clock.outcomeOf`: the state after a number of attempts, and what became of
  each.
* `Clock.cost`: the cycles of a number of attempts.
* `Clock.EndsAfter`: a run that ends after a number of steps.
* `Clock.Exact`: a run that goes exactly as far as it has to.

## Main results

* `Clock.exists_endsAfter_runSteps`: where a run ends.
* `Clock.exact_runSteps`: a run is exact.
-/

namespace AppleOne

/-- The report after some more steps and cycles. -/
def SliceReport.plus (report : SliceReport) (count cycles : Nat) : SliceReport :=
  { report with
    instructions := report.instructions + count
    cycles := report.cycles + cycles }

theorem SliceReport.plus_plus (report : SliceReport) (first second m n : Nat) :
    (report.plus first m).plus second n = report.plus (second + first) (m + n) := by
  simp only [plus, Nat.add_assoc, Nat.add_comm second]

namespace Clock

section Attempts

variable {σ : Type} (step : σ → Cpu.Outcome × σ) (state : σ)

/-- The state after a number of attempts, whatever became of them. -/
def reached (count : Nat) : σ := (fun state => (step state).2)^[count] state

/-- What became of an attempt. The first one has the number zero. -/
def outcomeOf (index : Nat) : Cpu.Outcome := (step (reached step state index)).1

/-- The cycles of a number of attempts. One that is refused takes none. -/
def cost (count : Nat) : Nat :=
  ∑ index ∈ Finset.range count, (outcomeOf step state index).cycles.toNat

@[simp] theorem reached_zero : reached step state 0 = state := rfl

/-- The first attempt leads to where the others start. -/
theorem reached_succ (count : Nat) :
    reached step state (count + 1) = reached step (step state).2 count := rfl

/-- The last attempt starts where the others led. -/
theorem reached_succ_last (count : Nat) :
    reached step state (count + 1) = (step (reached step state count)).2 :=
  Function.iterate_succ_apply' _ count state

theorem outcomeOf_zero : outcomeOf step state 0 = (step state).1 := rfl

theorem outcomeOf_succ (index : Nat) :
    outcomeOf step state (index + 1) = outcomeOf step (step state).2 index := rfl

@[simp] theorem cost_zero : cost step state 0 = 0 := rfl

theorem cost_succ (count : Nat) :
    cost step state (count + 1) =
      (step state).1.cycles.toNat + cost step (step state).2 count := by
  unfold cost
  rw [Finset.sum_range_succ', Nat.add_comm]
  rfl

theorem cost_succ_last (count : Nat) :
    cost step state (count + 1) =
      cost step state count + (outcomeOf step state count).cycles.toNat :=
  Finset.sum_range_succ _ count

/-- What no attempt exceeds, a number of them exceeds that many times at most. -/
theorem cost_le {most : Nat} (hmost : ∀ index, (outcomeOf step state index).cycles.toNat ≤ most)
    (count : Nat) : cost step state count ≤ count * most := by
  induction count with
  | zero => simp
  | succ count ih =>
    have hlast := hmost count
    rw [cost_succ_last, Nat.succ_mul]
    omega

end Attempts

variable {σ : Type} {step : σ → Cpu.Outcome × σ} {state after : σ} {limit steps count : Nat}
  {report : SliceReport} {result : SliceReport × σ}

/-! ## Where a run ends -/

/-- A run that ends after a number of steps: because its steps or its cycles are used up, or
because the next one is refused. -/
structure EndsAfter (step : σ → Cpu.Outcome × σ) (limit steps : Nat) (report : SliceReport)
    (state : σ) (count : Nat) (result : SliceReport × σ) : Prop where
  count_le : count ≤ steps
  before : ∀ index < count, (outcomeOf step state index).wasRefused = false ∧
    report.cycles + cost step state index < limit
  ends :
    let sum := report.plus count (cost step state count)
    (count = steps ∨ limit ≤ sum.cycles) ∧ result = (sum, reached step state count) ∨
    count < steps ∧ sum.cycles < limit ∧ ∃ pc, outcomeOf step state count = .refused pc ∧
      result = ({ sum with refusedAt := some pc }, reached step state (count + 1))

/-- A step that is carried out comes before those of the run that goes on from it. -/
theorem EndsAfter.succ {spent : UInt8} (hstep : step state = (.ran spent, after))
    (hlimit : report.cycles < limit)
    (hrest : EndsAfter step limit steps (report.plus 1 spent.toNat) after count result) :
    EndsAfter step limit (steps + 1) report state (count + 1) result := by
  have hafter : (step state).2 = after := congrArg Prod.snd hstep
  have hcost (index : Nat) :
      cost step state (index + 1) = spent.toNat + cost step after index := by
    rw [cost_succ, hstep]
    rfl
  have hsum : report.plus (count + 1) (cost step state (count + 1)) =
      (report.plus 1 spent.toNat).plus count (cost step after count) := by
    rw [hcost, SliceReport.plus_plus]
  refine ⟨Nat.succ_le_succ hrest.count_le, ?_, ?_⟩
  · intro index hindex
    -- an earlier step is the first one, or it belongs to the run that goes on from there
    cases index with
    | zero =>
      rw [outcomeOf_zero, hstep]
      exact ⟨rfl, hlimit⟩
    | succ index =>
      rw [outcomeOf_succ, hafter, hcost, ← Nat.add_assoc]
      exact hrest.before index (Nat.lt_of_succ_lt_succ hindex)
  · simp only [hsum, outcomeOf_succ, reached_succ, hafter]
    exact hrest.ends.imp (And.imp_left (Or.imp_left (congrArg (· + 1))))
      (And.imp_left Nat.succ_lt_succ)

/-- Every run ends after some number of its steps. -/
theorem exists_endsAfter_runSteps (step : σ → Cpu.Outcome × σ) (limit steps : Nat)
    (report : SliceReport) (state : σ) :
    ∃ count, EndsAfter step limit steps report state count
      (runSteps step limit steps report state) := by
  induction steps generalizing report state with
  | zero => exact ⟨0, Nat.le_refl 0, nofun, .inl ⟨.inl rfl, rfl⟩⟩
  | succ steps ih =>
    by_cases hlimit : report.cycles < limit
    · rcases hstep : step state with ⟨spent | pc, after⟩
      · obtain ⟨count, hrest⟩ := ih (report.plus 1 spent.toNat) after
        refine ⟨count + 1, ?_⟩
        simp only [runSteps, if_pos hlimit, hstep]
        exact hrest.succ hstep hlimit
      · refine ⟨0, Nat.zero_le _, nofun, .inr ⟨Nat.succ_pos steps, hlimit, pc, ?_, ?_⟩⟩
        · rw [outcomeOf_zero, hstep]
        · simp only [runSteps, if_pos hlimit, reached_succ, hstep]
          rfl
    · refine ⟨0, Nat.zero_le _, nofun, .inl ⟨.inr (Nat.not_lt.mp hlimit), ?_⟩⟩
      simp only [runSteps, if_neg hlimit]
      rfl

/-! ## Exact runs -/

/-- A run that reports the steps it has gone through and their cycles. If it was not refused a
step, it has gone through the least number of steps that is enough. Otherwise it was the next one
that was refused, and what came before was not enough. -/
structure Exact (step : σ → Cpu.Outcome × σ) (state : σ) (enough : Nat → Prop)
    (report : SliceReport) (final : σ) : Prop where
  cycles : report.cycles = cost step state report.instructions
  ran : ∀ index < report.instructions, (outcomeOf step state index).wasRefused = false
  complete : report.refusedAt = none →
    IsLeast {count | enough count} report.instructions ∧
      final = reached step state report.instructions
  refused : ∀ pc, report.refusedAt = some pc →
    (∀ count ≤ report.instructions, ¬ enough count) ∧
      outcomeOf step state report.instructions = .refused pc ∧
      final = reached step state (report.instructions + 1)

/-- A run goes on until the number of its steps or their cycles come to what is allowed. -/
theorem exact_runSteps (step : σ → Cpu.Outcome × σ) (limit steps : Nat) (state : σ) :
    Exact step state (fun count => steps ≤ count ∨ limit ≤ cost step state count)
      (runSteps step limit steps .empty state).1 (runSteps step limit steps .empty state).2 := by
  obtain ⟨count, hcount, hbefore, hends⟩ := exists_endsAfter_runSteps step limit steps .empty state
  simp only [SliceReport.empty, SliceReport.plus, Nat.zero_add] at hbefore hends
  have hran : ∀ index < count, (outcomeOf step state index).wasRefused = false :=
    fun index hindex => (hbefore index hindex).1
  have hneeded : ∀ index < count, ¬ (steps ≤ index ∨ limit ≤ cost step state index) := by
    intro index hindex
    obtain ⟨-, hcycles⟩ := hbefore index hindex
    omega
  rw [SliceReport.empty]
  rcases hends with ⟨hused, hrun⟩ | ⟨hleft, hcycles, pc, hrefused, hrun⟩
  · rw [hrun]
    refine ⟨rfl, hran, fun _ => ⟨⟨hused.imp_left Eq.ge, ?_⟩, rfl⟩, nofun⟩
    -- what is enough is not among the numbers before the end
    intro other hother
    by_contra hlt
    exact hneeded other (Nat.not_le.mp hlt) hother
  · rw [hrun]
    refine ⟨rfl, hran, nofun, ?_⟩
    intro other hother
    obtain rfl := Option.some.inj hother
    refine ⟨fun index hindex => ?_, hrefused, rfl⟩
    rcases Nat.lt_or_eq_of_le hindex with hlt | rfl
    · exact hneeded index hlt
    · omega

variable {enough : Nat → Prop} {final : σ}

/-- No run goes further than to a number of steps that is enough. -/
theorem Exact.instructions_le (h : Exact step state enough report final) {most : Nat}
    (hmost : enough most) : report.instructions ≤ most := by
  rcases hat : report.refusedAt with - | pc
  · exact (h.complete hat).1.2 hmost
  · exact Nat.le_of_not_le fun hle => (h.refused pc hat).1 most hle hmost

/-- If the cycles that are allowed are enough, a run exceeds them by less than a step. -/
theorem Exact.cycles_lt (h : Exact step state enough report final) {most : Nat}
    (hmost : ∀ index, (outcomeOf step state index).cycles.toNat ≤ most) (hlimit : 0 < limit)
    (henough : ∀ count, limit ≤ cost step state count → enough count) :
    report.cycles < limit + most := by
  rw [h.cycles]
  rcases hat : report.refusedAt with - | pc
  · have hleast := (h.complete hat).1.2
    cases hcount : report.instructions with
    | zero => exact Nat.lt_of_lt_of_le hlimit (Nat.le_add_right _ _)
    | succ count =>
      have hneeded : cost step state count < limit := by
        refine Nat.not_le.mp fun hle => ?_
        have hfurther : report.instructions ≤ count := hleast (henough count hle)
        omega
      have hlast := hmost count
      rw [cost_succ_last]
      omega
  · have hneeded : cost step state report.instructions < limit :=
      Nat.not_le.mp fun hle => (h.refused pc hat).1 _ (Nat.le_refl _) (henough _ hle)
    omega

end Clock

end AppleOne
