import AppleOne.Clock
import Mathlib.Data.List.Induction
import Mathlib.Logic.Function.Iterate

/-!
# The visits of a run

A run of the clock attempts one step after another. Every attempt is a visit: the state
in which it was made, what became of it, and the state after it. The visits of a run
determine what it reports and where it ends, so a law about each single step of a run
can be stated of its visits.

## Main definitions

* `Clock.visits`: the visits of a run in order.
* `Clock.sliceVisits`: the visits of a slice, none if the clock does not run.

## Main results

* `runSteps_eq`: the report and the last state of a run, from its visits.
* `visits_induction`: what holds of a run holds of it with one more step before it.
* `visits_split`: at each visit the step is taken in the state where the earlier ones
  led, all earlier ones were carried out, and nothing follows a refusal.
* `endOf_earlier_induction`: what steps keep, runs keep up to a refusal.
* `endOf_visits_iterate`: what steps do to a part of the state, runs do again and again.
-/

namespace AppleOne

/-- The report after one more step. -/
def SliceReport.extend (report : SliceReport) : Cpu.Outcome → SliceReport
  | .ran cycles =>
    { report with
      instructions := report.instructions + 1
      cycles := report.cycles + cycles.toNat }
  | .refused pc => { report with refusedAt := some pc }

namespace Clock

/-- An attempt at a step. -/
structure Visit (σ : Type) where
  before : σ
  outcome : Cpu.Outcome
  after : σ

variable {σ : Type}

/-- Where some visits lead from a state. -/
def endOf (state : σ) (visits : List (Visit σ)) : σ :=
  visits.foldl (fun _ visit => visit.after) state

@[simp] theorem endOf_nil (state : σ) : endOf state [] = state := rfl

@[simp] theorem endOf_cons (state : σ) (visit : Visit σ) (rest : List (Visit σ)) :
    endOf state (visit :: rest) = endOf visit.after rest := rfl

@[simp] theorem endOf_concat (state : σ) (visits : List (Visit σ)) (visit : Visit σ) :
    endOf state (visits ++ [visit]) = visit.after := by
  simp [endOf, List.foldl_append]

/-- The visits of a run of at most `steps` steps, of which `cycles` have been used up. -/
def visits (step : σ → Cpu.Outcome × σ) (limit : Nat) : Nat → Nat → σ → List (Visit σ)
  | 0, _, _ => []
  | steps + 1, cycles, state =>
    if cycles < limit then
      match step state with
      | (.ran spent, after) =>
        ⟨state, .ran spent, after⟩ :: visits step limit steps (cycles + spent.toNat) after
      | (.refused pc, after) => [⟨state, .refused pc, after⟩]
    else []

/-- What visits add to a report. -/
def reportOf (report : SliceReport) (visits : List (Visit σ)) : SliceReport :=
  visits.foldl (fun report visit => report.extend visit.outcome) report

variable {step : σ → Cpu.Outcome × σ} {limit steps cycles : Nat} {state : σ}

/-- A run is determined by its visits. -/
theorem runSteps_eq (step : σ → Cpu.Outcome × σ) (limit steps : Nat) (report : SliceReport)
    (state : σ) :
    runSteps step limit steps report state =
      (reportOf report (visits step limit steps report.cycles state),
        endOf state (visits step limit steps report.cycles state)) := by
  induction steps generalizing report state with
  | zero => rfl
  | succ steps ih =>
    unfold runSteps visits
    split
    · -- after a step that was carried out both go on from where it led
      rcases step state with ⟨spent | pc, after⟩
      · exact ih _ after
      · rfl
    · rfl

/-- What holds of a run without visits, and of one with another step before it, holds of
every run. -/
theorem visits_induction {motive : σ → List (Visit σ) → Prop} (nil : ∀ state, motive state [])
    (cons : ∀ state outcome after rest, step state = (outcome, after) → motive after rest →
      motive state (⟨state, outcome, after⟩ :: rest))
    (limit steps cycles : Nat) (state : σ) :
    motive state (visits step limit steps cycles state) := by
  induction steps generalizing cycles state with
  | zero => exact nil state
  | succ steps ih =>
    unfold visits
    split
    · rcases hstep : step state with ⟨spent | pc, after⟩
      · exact cons state _ after _ hstep (ih _ after)
      · exact cons state _ after [] hstep (nil after)
    · exact nil state

/-- Every visit is a step, taken where the earlier ones led. The earlier ones were
carried out, and nothing follows a refusal. -/
theorem visits_split {earlier later : List (Visit σ)} {visit : Visit σ}
    (h : visits step limit steps cycles state = earlier ++ visit :: later) :
    visit.before = endOf state earlier ∧
      step visit.before = (visit.outcome, visit.after) ∧
      (∀ other ∈ earlier, other.outcome.wasRefused = false) ∧
      (visit.outcome.wasRefused = true → later = []) := by
  induction steps generalizing cycles state earlier with
  | zero => simp [visits] at h
  | succ steps ih =>
    unfold visits at h
    split at h
    · cases hstep : step state with
      | mk outcome after =>
        cases outcome with
        | ran spent =>
          simp only [hstep] at h
          cases earlier with
          | nil =>
            obtain ⟨rfl, -⟩ := List.cons.inj h
            exact ⟨rfl, hstep, by simp, by simp [Cpu.Outcome.wasRefused]⟩
          | cons first earlier =>
            -- the visit lies in the run that goes on from the first step
            obtain ⟨rfl, htail⟩ := List.cons.inj h
            obtain ⟨hbefore, htaken, hearlier, hlater⟩ := ih htail
            refine ⟨hbefore, htaken, ?_, hlater⟩
            intro other hother
            rcases List.mem_cons.mp hother with rfl | hother
            · rfl
            · exact hearlier other hother
        | refused pc =>
          simp only [hstep] at h
          cases earlier with
          | nil =>
            obtain ⟨rfl, rfl⟩ := List.cons.inj h
            exact ⟨rfl, hstep, by simp, fun _ => rfl⟩
          | cons first earlier => simp at h
    · simp at h

/-- If carrying out a step comes to the same as `next` on a part of the state, and a
refusal leaves that part alone, then a run comes to as many times `next` as steps were
carried out. -/
theorem endOf_visits_iterate {γ : Type} {part : σ → γ} {next : γ → γ}
    (hstep : ∀ s, part (step s).2 = if (step s).1.wasRefused then part s else next (part s)) :
    part (endOf state (visits step limit steps cycles state)) =
      next^[(visits step limit steps cycles state).countP (!·.outcome.wasRefused)]
        (part state) := by
  induction steps generalizing cycles state with
  | zero => rfl
  | succ steps ih =>
    have hnext := hstep state
    unfold visits
    split
    · cases houtcome : step state with
      | mk outcome after =>
        rw [houtcome] at hnext
        cases outcome with
        | ran spent =>
          -- one more `next` on the part, before those of the remaining run
          have hafter : part after = next (part state) := hnext
          rw [endOf_cons, ih, List.countP_cons_of_pos rfl, hafter, Function.iterate_succ_apply]
        | refused pc => exact hnext
    · rfl

/-- What every step that is carried out keeps, a run keeps up to its refusal. -/
theorem endOf_earlier_induction {P : σ → Prop} {earlier later : List (Visit σ)}
    (hstep : ∀ s, P s → (step s).1.wasRefused = false → P (step s).2) (hstate : P state)
    (h : visits step limit steps cycles state = earlier ++ later)
    (hran : ∀ visit ∈ earlier, visit.outcome.wasRefused = false) : P (endOf state earlier) := by
  -- from the end, since a visit starts where all that came before it led
  induction earlier using List.reverseRecOn generalizing later with
  | nil => exact hstate
  | append_singleton earlier visit ih =>
    rw [List.append_assoc] at h
    obtain ⟨hbefore, htaken, hearlier, -⟩ := visits_split h
    have hP := ih h hearlier
    rw [← hbefore] at hP
    have hnext := hstep visit.before hP
    rw [htaken] at hnext
    rw [endOf_concat]
    exact hnext (hran visit (by simp))

/-- A report counts the steps that were carried out. -/
theorem instructions_reportOf (report : SliceReport) (visits : List (Visit σ)) :
    (reportOf report visits).instructions =
      report.instructions + visits.countP (!·.outcome.wasRefused) := by
  induction visits generalizing report with
  | nil => rfl
  | cons visit rest ih =>
    have hrest : (reportOf report (visit :: rest)).instructions = _ :=
      ih (report.extend visit.outcome)
    rw [hrest, List.countP_cons]
    cases visit.outcome with
    | ran spent =>
      simp only [SliceReport.extend, Cpu.Outcome.wasRefused, Bool.not_false, if_true]
      omega
    | refused pc => simp [SliceReport.extend, Cpu.Outcome.wasRefused]

/-! ## Slices -/

/-- The visits of a slice. A clock that does not run visits nothing. -/
def sliceVisits (clock : Clock) (now : Nat) (step : σ → Cpu.Outcome × σ) (state : σ) :
    List (Visit σ) :=
  if clock.running then
    let allowance := (clock.pacer.allowance now).1
    visits step allowance.cycles allowance.instructions 0 state
  else []

theorem sliceVisits_of_not_running {clock : Clock} (h : clock.running = false) (now : Nat)
    (step : σ → Cpu.Outcome × σ) (state : σ) : clock.sliceVisits now step state = [] := by
  simp [sliceVisits, h]

theorem slice_of_not_running {clock : Clock} (h : clock.running = false) (now : Nat)
    (step : σ → Cpu.Outcome × σ) (state : σ) :
    clock.slice now step state = (.empty, clock, state, now) := by
  simp [slice, h]

/-- What a slice of a running clock does, from its visits. -/
theorem slice_of_running {clock : Clock} (h : clock.running = true) (now : Nat)
    (step : σ → Cpu.Outcome × σ) (state : σ) :
    clock.slice now step state =
      let report := reportOf .empty (clock.sliceVisits now step state)
      (report,
        { clock with pacer := (clock.pacer.allowance now).2.1 }.account report,
        endOf state (clock.sliceVisits now step state),
        (clock.pacer.allowance now).2.2) := by
  simp only [slice, sliceVisits, h, if_true, runSteps_eq]
  rfl

/-- What holds of a run without visits, and of one with another step before it, holds of
every slice. -/
theorem sliceVisits_induction {motive : σ → List (Visit σ) → Prop}
    (nil : ∀ state, motive state [])
    (cons : ∀ state outcome after rest, step state = (outcome, after) → motive after rest →
      motive state (⟨state, outcome, after⟩ :: rest))
    (clock : Clock) (now : Nat) (state : σ) :
    motive state (clock.sliceVisits now step state) := by
  unfold sliceVisits
  split
  · exact visits_induction nil cons _ _ 0 state
  · exact nil state

theorem sliceVisits_split {clock : Clock} {now : Nat} {earlier later : List (Visit σ)}
    {visit : Visit σ} (h : clock.sliceVisits now step state = earlier ++ visit :: later) :
    clock.running = true ∧ visit.before = endOf state earlier ∧
      step visit.before = (visit.outcome, visit.after) ∧
      (∀ other ∈ earlier, other.outcome.wasRefused = false) ∧
      (visit.outcome.wasRefused = true → later = []) := by
  unfold sliceVisits at h
  split at h
  · exact ⟨by assumption, visits_split h⟩
  · simp at h

theorem endOf_earlier_sliceVisits_induction {P : σ → Prop} {clock : Clock} {now : Nat}
    {earlier later : List (Visit σ)}
    (hstep : ∀ s, P s → (step s).1.wasRefused = false → P (step s).2) (hstate : P state)
    (h : clock.sliceVisits now step state = earlier ++ later)
    (hran : ∀ visit ∈ earlier, visit.outcome.wasRefused = false) : P (endOf state earlier) := by
  unfold sliceVisits at h
  split at h
  · exact endOf_earlier_induction hstep hstate h hran
  · obtain ⟨rfl, -⟩ := List.append_eq_nil_iff.mp h.symm
    exact hstate

/-- A slice comes to as many times `next` as it reports instructions. -/
theorem endOf_sliceVisits_iterate {γ : Type} {part : σ → γ} {next : γ → γ}
    (hstep : ∀ s, part (step s).2 = if (step s).1.wasRefused then part s else next (part s))
    (clock : Clock) (now : Nat) :
    part (endOf state (clock.sliceVisits now step state)) =
      next^[(reportOf .empty (clock.sliceVisits now step state)).instructions] (part state) := by
  rw [instructions_reportOf, SliceReport.empty, Nat.zero_add]
  unfold sliceVisits
  split
  · exact endOf_visits_iterate hstep
  · rfl

/-- A report in which no step was refused. -/
theorem reportOf_refusedAt (report : SliceReport) (visits : List (Visit σ)) :
    (∀ visit ∈ visits, visit.outcome.wasRefused = false) →
      (reportOf report visits).refusedAt = report.refusedAt := by
  induction visits generalizing report with
  | nil => intro _; rfl
  | cons visit rest ih =>
    intro h
    have hrest := ih (report.extend visit.outcome) fun other hother =>
      h other (List.mem_cons_of_mem _ hother)
    have hvisit := h visit List.mem_cons_self
    cases houtcome : visit.outcome with
    | ran spent =>
      rw [houtcome] at hrest
      simpa [reportOf, houtcome, SliceReport.extend] using hrest
    | refused pc => simp [houtcome, Cpu.Outcome.wasRefused] at hvisit

end Clock

end AppleOne
