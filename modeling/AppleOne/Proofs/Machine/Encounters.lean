import AppleOne.Proofs.Bus.Decode
import AppleOne.Proofs.Cpu.Encounters
import AppleOne.Proofs.Machine.Sound

/-!
# What programs do on the bus

Programs run in slices and by step commands. Both attempt machine steps, one after another,
and an attempt that is not refused makes the accesses of a step of the processor. What an
access keeps, and what the service of the display keeps, holds throughout; other actions
make no accesses.

## Main definitions

* `Machine.attempts`: the machine steps that an action attempts.
* `Machine.encounters`, `Machine.sessionEncounters`: the accesses of programs.

## Main results

* `Machine.attempts_induction`: induction on the machine steps of an action.
* `Machine.core_endOf_attempts`: where they lead.
* `Machine.keptUntil_encounters`, `Machine.keptUntil_sessionEncounters`: what holds of the
  mappings up to the first access of some kind.
* `Machine.layout_of_mem_encounters`: every access meets the layout of the machine.
-/

namespace AppleOne.Machine

open Cpu

/-! ## Attempts -/

/-- The actions that go through machine steps. -/
def Action.executes : Action → Bool
  | .slice _ | .command _ .step => true
  | _ => false

/-- The processor and the screen with which the machine steps of an action begin. A step
command asks for a bypass first. -/
def start (machine : Machine) : Action → Pair
  | .command _ .step => (machine.runner.cpu.bypassOnce, machine.screen)
  | _ => machine.pair

/-- The machine steps that an action attempts. -/
def attempts (machine : Machine) : Action → List (Clock.Visit Pair)
  | .slice now => machine.visits now
  | .command time .step =>
    let before := machine.start (.command time .step)
    let (outcome, after) := stepWithScreen before
    [⟨before, outcome, after⟩]
  | _ => []

variable {machine : Machine} {action : Action}

@[simp] theorem coreOf_start (machine : Machine) (action : Action) :
    coreOf (machine.start action) = machine.core := by
  unfold start
  split <;> rfl

theorem attempts_of_not_executes (h : action.executes = false) (machine : Machine) :
    machine.attempts action = [] := by
  unfold attempts
  split
  · cases h
  · cases h
  · rfl

/-- What holds without machine steps, and with another one before them, holds of the machine
steps of every action. -/
theorem attempts_induction {motive : Pair → List (Clock.Visit Pair) → Prop}
    (nil : ∀ pair, motive pair [])
    (cons : ∀ pair outcome after rest, stepWithScreen pair = (outcome, after) →
      motive after rest → motive pair (⟨pair, outcome, after⟩ :: rest))
    (machine : Machine) (action : Action) :
    motive (machine.start action) (machine.attempts action) := by
  unfold attempts
  split
  · exact Clock.sliceVisits_induction nil cons machine.runner.clock _ machine.pair
  · exact cons _ _ _ [] rfl (nil _)
  · exact nil _

/-- Every attempt is a machine step. -/
theorem step_of_mem_attempts {visit : Clock.Visit Pair} (h : visit ∈ machine.attempts action) :
    stepWithScreen visit.before = (visit.outcome, visit.after) := by
  refine attempts_induction
    (motive := fun _ visits => ∀ visit ∈ visits,
      stepWithScreen visit.before = (visit.outcome, visit.after))
    (fun _ _ hvisit => absurd hvisit List.not_mem_nil) ?_ machine action visit h
  intro pair outcome after rest hstep ih
  exact List.forall_mem_cons.mpr ⟨hstep, ih⟩

/-- The machine steps of an action lead where the action leads. -/
theorem core_endOf_attempts (h : action.executes = true) (machine : Machine) :
    coreOf (Clock.endOf (machine.start action) (machine.attempts action)) =
      (machine.act action).core := by
  cases action with
  | slice now =>
    have hslice : (machine.act (.slice now)).core = (machine.slice now).2.1.core := rfl
    rw [hslice, core_slice, core, pair_execute]
    rfl
  | command time command =>
    cases command with
    | step =>
      have hact : (machine.act (.command time .step)).core = machine.core.advance :=
        core_singleStep machine
      have hattempt := coreOf_stepWithScreen (machine.start (.command time .step))
      -- the bypass lets the step through
      have hran : (stepWithScreen (machine.start (.command time .step))).1.wasRefused = false := by
        rw [start, stepWithScreen_of_advance (step_of_bypass rfl)]
        exact advanceWithScreen_wasRefused _
      rw [hran, if_neg Bool.false_ne_true, coreOf_start] at hattempt
      exact hattempt.trans hact.symm
    | _ => cases h
  | _ => cases h

/-! ## Accesses -/

/-- The accesses of an attempt; a refused one makes none. -/
def encountersOf (visit : Clock.Visit Pair) : List (Encounter Bus) :=
  if visit.outcome.wasRefused then [] else visit.before.1.encounters

/-- The accesses of the machine steps of an action. -/
def encounters (machine : Machine) (action : Action) : List (Encounter Bus) :=
  (machine.attempts action).flatMap encountersOf

/-- The accesses of all machine steps of a session. -/
def sessionEncounters (machine : Machine) : List Action → List (Encounter Bus)
  | [] => []
  | action :: rest => machine.encounters action ++ (machine.act action).sessionEncounters rest

theorem exists_of_mem_sessionEncounters {actions : List Action} {encounter : Encounter Bus}
    (h : encounter ∈ machine.sessionEncounters actions) :
    ∃ earlier action later, actions = earlier ++ action :: later ∧
      encounter ∈ (machine.run earlier).encounters action := by
  induction actions generalizing machine with
  | nil => cases h
  | cons action rest ih =>
    rcases List.mem_append.mp h with h | h
    · exact ⟨[], action, rest, rfl, h⟩
    · obtain ⟨earlier, other, later, rfl, hmem⟩ := ih h
      exact ⟨action :: earlier, other, later, rfl, hmem⟩

/-- A program reads what the memory has to give. -/
theorem faithful_of_mem_encounters {encounter : Encounter Bus}
    (h : encounter ∈ machine.encounters action) : encounter.Faithful := by
  obtain ⟨visit, -, hmem⟩ := List.mem_flatMap.mp h
  unfold encountersOf at hmem
  split at hmem
  · cases hmem
  · obtain ⟨earlier, later, hsplit⟩ := List.append_of_mem hmem
    exact (Transaction.encounters_split hsplit).2

/-! ## What holds of the mappings -/

theorem mappings_memoryAfter {σ : Type} (cpu : Cpu Bus σ) :
    cpu.memoryAfter.mappings = (cpu.registers.step.run cpu.memory).2.mappings := by
  rcases hrun : cpu.registers.step.run cpu.memory with ⟨⟨registers, opcode⟩, memory⟩
  simp only [memoryAfter, hrun]
  cases opcode with
  | none => rfl
  | some opcode =>
    simp only
    split <;> rfl

/-- After a machine step the display was served. -/
theorem mappings_advanceWithScreen (pair : Pair) :
    (advanceWithScreen pair).2.1.memory.mappings =
      (pair.1.memoryAfter.onPia servePia).2.mappings := by
  simp only [advanceWithScreen, advance_eq, serve_eq]

section Kept

variable {ends : Encounter Bus → Bool} {P : List Mapping → Prop}

/-- What accesses and the service of the display keep, a machine step keeps. -/
theorem keptUntil_encountersOf
    (hkept : ∀ encounter : Encounter Bus, P encounter.memory.mappings → ends encounter = false →
      P encounter.after.mappings)
    (hserve : ∀ bus : Bus, P bus.mappings → P (bus.onPia servePia).2.mappings)
    {pair after : Pair} {outcome : Outcome} (hstep : stepWithScreen pair = (outcome, after))
    (h : P pair.1.memory.mappings) :
    Encounter.KeptUntil ends (P ·.mappings) (P after.1.memory.mappings)
      (encountersOf ⟨pair, outcome, after⟩) := by
  obtain ⟨memo, hcases | hcases⟩ := stepWithScreen_cases pair
  · -- carried out: the accesses of the step, and then the service of the display
    rw [hcases] at hstep
    obtain rfl : outcome = _ := (congrArg Prod.fst hstep).symm
    obtain rfl : after = _ := (congrArg Prod.snd hstep).symm
    simp only [encountersOf, advanceWithScreen_wasRefused, Bool.false_eq_true, if_false,
      mappings_advanceWithScreen]
    refine (Transaction.keptUntil_encounters (P := fun bus : Bus => P bus.mappings)
      (fun encounter => hkept encounter) pair.1.registers.step h).imp fun hrun => ?_
    refine hserve _ ?_
    rw [mappings_memoryAfter]
    exact hrun
  · -- refused: no accesses, and the mappings stay
    rw [hcases] at hstep
    obtain ⟨rfl, rfl⟩ := Prod.mk.inj hstep
    exact h

/-- What accesses and the service of the display keep, holds up to the first access of some
kind, and at the end of an action if it makes none. -/
theorem keptUntil_encounters
    (hkept : ∀ encounter : Encounter Bus, P encounter.memory.mappings → ends encounter = false →
      P encounter.after.mappings)
    (hserve : ∀ bus : Bus, P bus.mappings → P (bus.onPia servePia).2.mappings)
    (hother : action.executes = false → P machine.core.mappings →
      P (machine.act action).core.mappings)
    (h : P machine.core.mappings) :
    Encounter.KeptUntil ends (P ·.mappings) (P (machine.act action).core.mappings)
      (machine.encounters action) := by
  cases hexecutes : action.executes with
  | false =>
    rw [encounters, attempts_of_not_executes hexecutes]
    exact hother hexecutes h
  | true =>
    -- machine step by machine step, each beginning where the one before it ended
    have hchain := attempts_induction
      (motive := fun pair visits => P pair.1.memory.mappings →
        Encounter.KeptUntil ends (P ·.mappings) (P (Clock.endOf pair visits).1.memory.mappings)
          (visits.flatMap encountersOf))
      (fun _ hpair => hpair)
      (fun pair outcome after rest hstep ih hpair => by
        rw [List.flatMap_cons]
        exact Encounter.keptUntil_append.mpr
          ((keptUntil_encountersOf hkept hserve hstep hpair).imp ih))
      machine action
    have hstart : (machine.start action).1.memory.mappings = machine.core.mappings :=
      congrArg Core.mappings (coreOf_start machine action)
    refine (hchain (hstart ▸ h)).imp fun hend => ?_
    rw [← core_endOf_attempts hexecutes]
    exact hend

/-- What accesses, the service of the display and the other actions keep, holds up to the
first access of some kind, and at the end of a session if there is none. -/
theorem keptUntil_sessionEncounters {actions : List Action}
    (hkept : ∀ encounter : Encounter Bus, P encounter.memory.mappings → ends encounter = false →
      P encounter.after.mappings)
    (hserve : ∀ bus : Bus, P bus.mappings → P (bus.onPia servePia).2.mappings)
    (hother : ∀ machine : Machine, ∀ action ∈ actions, action.executes = false →
      P machine.core.mappings → P (machine.act action).core.mappings)
    (h : P machine.core.mappings) :
    Encounter.KeptUntil ends (P ·.mappings) (P (machine.run actions).core.mappings)
      (machine.sessionEncounters actions) := by
  induction actions generalizing machine with
  | nil => exact h
  | cons action rest ih =>
    obtain ⟨haction, hrest⟩ : (∀ machine : Machine, action.executes = false →
        P machine.core.mappings → P (machine.act action).core.mappings) ∧
        ∀ machine : Machine, ∀ action ∈ rest, action.executes = false →
          P machine.core.mappings → P (machine.act action).core.mappings :=
      ⟨fun machine => hother machine action List.mem_cons_self,
        fun machine other hmem => hother machine other (List.mem_cons_of_mem _ hmem)⟩
    exact Encounter.keptUntil_append.mpr
      ((keptUntil_encounters hkept hserve (haction machine) h).imp fun hact => ih hrest hact)

end Kept

/-! ## Layout -/

variable {layout : List Mapping} {encounter : Encounter Bus}

theorem layout_after (encounter : Encounter Bus) :
    encounter.after.layout = encounter.memory.layout := by
  obtain ⟨memory, ⟨address, value⟩ | ⟨address, value⟩⟩ := encounter
  · exact memory.layout_read address
  · exact memory.layout_write address value

/-- Every access of a machine meets the layout of the machine. -/
theorem layout_of_mem_encounters (hdistinct : Mapping.Distinct layout)
    (h : machine.core.Sound layout) (hmem : encounter ∈ machine.encounters action) :
    encounter.memory.layout = layout.map Mapping.blank := by
  have hchain : Encounter.KeptUntil (fun _ => false)
      (fun bus => bus.mappings.map Mapping.blank = layout.map Mapping.blank) _
      (machine.encounters action) :=
    keptUntil_encounters (P := fun mappings => mappings.map Mapping.blank =
        layout.map Mapping.blank)
      (fun encounter hlayout _ => (layout_after encounter).trans hlayout)
      (fun bus hlayout => (bus.layout_onPia servePia servePia_source).trans hlayout)
      (fun _ _ => (sound_act hdistinct h action).layout) h.layout
  -- nothing ends the chain, so it says something of every access
  obtain ⟨earlier, later, hsplit⟩ := List.append_of_mem hmem
  rw [hsplit] at hchain
  exact hchain.holds_at fun _ _ => rfl

end AppleOne.Machine
