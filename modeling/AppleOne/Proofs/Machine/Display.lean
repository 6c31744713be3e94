import AppleOne.Proofs.Machine.Adapter

/-!
# What is displayed

A program displays a character by writing it to the data register of port B. The adapter
remembers that it was written to, not how often, and the display looks once after every
step. No character is lost for that: a step writes at most once outside the stack, and with
its last access, so there is nothing to be displayed before it and nothing to be overwritten
by it.

## Main definitions

* `Machine.characterAfter`, `Machine.characters`: what the screen is handed after the steps
  of the processor.
* `Machine.displayed?`: the character that an access of a program displays.

## Main results

* `Machine.displayed_encounters`: a step writes what the display finds afterwards.
* `Machine.screen_endOf_attempts`: what becomes of the screen.
* `Machine.characters_eq`: the screen is handed what programs display, in order.
* `Machine.displayed_once_in_order`: no displayed character is lost, repeated or reordered.
-/

namespace AppleOne

open Cpu

/-! ## The adapter -/

/-- The character that waits at port B. -/
def Pia.pending? (adapter : Pia) : Option UInt8 :=
  if adapter.strobe then some (adapter.b.output &&& 0x7F) else none

namespace Machine

theorem servePia_character (adapter : Pia) : (servePia adapter).1 = adapter.pending? := by
  cases h : adapter.strobe <;>
    simp [servePia, takeCharacter, Pia.takeStrobe, Pia.pending?, Pia.b, h]

/-- The screen is handed the character that waits. -/
theorem character_onPia (bus : Bus) :
    (bus.onPia servePia).1.join = bus.pia?.bind Pia.pending? := by
  rw [(bus.pia?_onPia servePia).1]
  cases bus.pia? with
  | none => rfl
  | some adapter => exact servePia_character adapter

end Machine

theorem Pia.strobe_read (adapter : Pia) (offset : UInt16) :
    (adapter.read offset).2.strobe = adapter.strobe := by
  unfold read
  split <;> rfl

/-- Only a write to the data of port B raises the strobe. -/
theorem Pia.strobe_write (adapter : Pia) {offset : UInt16}
    (h : Register.ofOffset offset ≠ .dataB) (value : UInt8) :
    (adapter.write offset value).strobe = adapter.strobe := by
  unfold write
  split
  · rfl
  · rfl
  · next hregister => exact absurd hregister h
  · rfl

/-- What waits after a write to the data register of port B at which nothing waited. -/
theorem Pia.pending?_write (adapter : Pia) (h : adapter.strobe = false) (value : UInt8) :
    (adapter.write 2 value).pending? =
      if adapter.b.dataSelected then some (value &&& 0x7F) else none := by
  have hwrite : adapter.write 2 value =
      { adapter.mapB (·.write value) with strobe := adapter.strobe || adapter.b.dataSelected } :=
    rfl
  unfold pending?
  rw [hwrite, h]
  cases hselected : adapter.b.dataSelected with
  | false => rfl
  | true =>
    have hport : (adapter.b.write value).output = value := by simp [Port.write, hselected]
    exact congrArg (fun output => some (output &&& 0x7F)) hport

namespace Machine

/-! ## Accesses -/

/-- The character that an access displays: a byte that is written to the data register of
port B, without its top bit. -/
def displayed? (encounter : Encounter Bus) : Option UInt8 :=
  match encounter.access with
  | .write address value =>
    if address = 0xD012 ∧ encounter.memory.pia?.any (·.b.dataSelected) then
      some (value &&& 0x7F)
    else none
  | .read _ _ => none

theorem displayed?_of_ne {bus : Bus} {address : UInt16} (h : address ≠ 0xD012) (value : UInt8) :
    displayed? ⟨bus, .write address value⟩ = none :=
  if_neg fun hcase => h hcase.1

/-- The stack lies in page one. -/
theorem toNat_lt_of_onStack {address : UInt16} (h : OnStack address) : address.toNat < 0x200 := by
  obtain ⟨sp, rfl⟩ := h
  have hsp : sp.toNat < 2 ^ 9 := Nat.lt_trans sp.toNat_lt (by decide)
  rw [stackAddress, UInt16.toNat_or]
  exact Nat.or_lt_two_pow (by decide) hsp

/-- The data register of port B is the third of the adapter. -/
theorem ofOffset_ne_dataB {address : UInt16} (h : 0xD010 ≤ address ∧ address ≤ 0xD013)
    (hne : address ≠ 0xD012) : Pia.Register.ofOffset (address - 0xD010) ≠ .dataB := by
  obtain rfl | rfl | rfl | rfl := register_cases h
  · decide
  · decide
  · exact absurd rfl hne
  · decide

section Accesses

variable {config : Config} {bus : Bus}

/-- A bus of a machine at whose display nothing waits. -/
def Idle (config : Config) (bus : Bus) : Prop :=
  Attached config (·.strobe = false) bus.mappings

theorem Idle.pending? (h : Idle config bus) : bus.pia?.bind Pia.pending? = none := by
  obtain ⟨adapter, hadapter, hstrobe⟩ := h.adapter
  have hpia : bus.pia? = some adapter := hadapter
  rw [hpia]
  exact if_neg (by simp [hstrobe])

theorem Idle.read (h : Idle config bus) (address : UInt16) : Idle config (bus.read address).2 :=
  Attached.read h address fun _ adapter _ hstrobe => (adapter.strobe_read _).trans hstrobe

/-- A write to another address than that of the display leaves nothing waiting. -/
theorem Idle.write (h : Idle config bus) {address : UInt16} (hne : address ≠ 0xD012)
    (value : UInt8) : Idle config (bus.write address value) :=
  Attached.write h address value fun haddress adapter hstrobe =>
    (adapter.strobe_write (ofOffset_ne_dataB haddress hne) value).trans hstrobe

/-- If nothing waited, what waits after a write is what it displays. -/
theorem pending?_write (h : Idle config bus) (address : UInt16) (value : UInt8) :
    (bus.write address value).pia?.bind Pia.pending? =
      displayed? ⟨bus, .write address value⟩ := by
  by_cases haddress : address = 0xD012
  · -- nothing waited, so the strobe says whether this byte counts
    subst haddress
    obtain ⟨adapter, hadapter, hstrobe⟩ := h.adapter
    have hpia : bus.pia? = some adapter := hadapter
    have hwritten := adapter.pending?_write hstrobe value
    rw [pia?_write_of_layout h.layout, if_pos (by decide)]
    simpa [displayed?, hpia] using hwritten
  · rw [(h.write haddress value).pending?, displayed?_of_ne haddress]

/-- Writes to the stack display nothing. -/
theorem displayed_of_writesWithin {α : Type} {transaction : Transaction α}
    (h : transaction.WritesWithin OnStack) (bus : Bus) :
    (transaction.encounters bus).filterMap displayed? = [] := by
  induction transaction generalizing bus with
  | done result => rfl
  | read address next ih => exact ih _ (h _) _
  | write address value next ih =>
    have hlt := toNat_lt_of_onStack h.1
    have hne : address ≠ 0xD012 := fun heq => by simp [heq] at hlt
    rw [Transaction.encounters, List.filterMap_cons_none (displayed?_of_ne hne value)]
    exact ih h.2 _

/-- If nothing waits when a step begins, and the step writes at most once outside the stack,
namely at its end, then what waits afterwards is all that it displays. -/
theorem displayed_encounters {α : Type} {transaction : Transaction α}
    (h : transaction.WritesLast OnStack) (hidle : Idle config bus) :
    (transaction.encounters bus).filterMap displayed? =
      ((transaction.run bus).2.pia?.bind Pia.pending?).toList := by
  induction transaction generalizing bus with
  | done result =>
    have hnone : ((Transaction.done result).run bus).2.pia?.bind Pia.pending? = none :=
      hidle.pending?
    rw [hnone]
    rfl
  | read address next ih => exact ih _ (h _) (hidle.read address)
  | write address value next ih =>
    rcases h with ⟨haddress, hnext⟩ | ⟨result, rfl⟩
    · -- a write to the stack, after which the step goes on
      have hlt := toNat_lt_of_onStack haddress
      have hne : address ≠ 0xD012 := fun heq => by simp [heq] at hlt
      rw [Transaction.encounters, List.filterMap_cons_none (displayed?_of_ne hne value)]
      exact ih hnext (hidle.write hne value)
    · -- the last access
      have hrun : ((Transaction.write address value (.done result)).run bus).2 =
          bus.write address value := rfl
      rw [hrun, pending?_write hidle, Transaction.encounters, Transaction.encounters]
      cases hdisplayed : displayed? ⟨bus, .write address value⟩ with
      | none => rw [List.filterMap_cons_none hdisplayed]; rfl
      | some code => rw [List.filterMap_cons_some hdisplayed]; rfl

end Accesses

/-! ## Characters -/

/-- The character that the screen is handed after a step of the processor. -/
def characterAfter (cpu : Cpu Bus (Option StopEvent)) : Option UInt8 :=
  let (outcome, cpu) := cpu.step
  if outcome.wasRefused then none else (cpu.memory.onPia servePia).1.join

/-- The characters that the screen is handed in the course of an action. -/
def characters (machine : Machine) (action : Action) : List UInt8 :=
  (machine.attempts action).flatMap fun visit => (characterAfter visit.before.1).toList

/-- A step that is refused hands over nothing, and any other hands over what waits after the
accesses that it makes. -/
theorem characterAfter_cases (cpu : Cpu Bus (Option StopEvent)) :
    (cpu.step.1.wasRefused = true ∧ characterAfter cpu = none) ∨
    (cpu.step.1.wasRefused = false ∧
      characterAfter cpu = (cpu.registers.step.run cpu.memory).2.pia?.bind Pia.pending?) := by
  unfold characterAfter
  obtain ⟨memo, hstep | hstep⟩ := cpu.step_cases
  · -- what is counted and reported after the accesses does not reach the adapter
    have hpia : cpu.memoryAfter.pia? = (cpu.registers.step.run cpu.memory).2.pia? :=
      congrArg (List.findSome? Mapping.adapter?) (mappings_memoryAfter cpu)
    right
    rw [hstep, advance_eq, ← hpia, ← character_onPia]
    exact ⟨rfl, rfl⟩
  · left
    rw [hstep]
    exact ⟨rfl, rfl⟩

theorem outcome_stepWithScreen (pair : Pair) : (stepWithScreen pair).1 = pair.1.step.1 := by
  unfold stepWithScreen
  simp only
  split <;> rfl

/-- A machine step does to the screen what writing the character does. -/
theorem screen_stepWithScreen (pair : Pair) :
    (stepWithScreen pair).2.2 = shown pair.2 (characterAfter pair.1) := by
  unfold stepWithScreen characterAfter
  simp only [serve_eq]
  split <;> rfl

/-- The machine steps of an action do to the screen what writing its characters does. -/
theorem screen_endOf_attempts (machine : Machine) (action : Action) :
    (Clock.endOf (machine.start action) (machine.attempts action)).2 =
      (machine.characters action).foldl (fun screen code => (screen.write code).2)
        (machine.start action).2 := by
  have hshown (screen : Screen) (character : Option UInt8) : shown screen character =
      character.toList.foldl (fun screen code => (screen.write code).2) screen := by
    cases character <;> rfl
  refine attempts_induction
    (motive := fun pair visits => (Clock.endOf pair visits).2 =
      (visits.flatMap fun visit => (characterAfter visit.before.1).toList).foldl
        (fun screen code => (screen.write code).2) pair.2)
    (fun _ => rfl) ?_ machine action
  intro pair outcome after rest hstep ih
  have hscreen := screen_stepWithScreen pair
  rw [hstep, hshown] at hscreen
  rw [Clock.endOf_cons, ih, hscreen, List.flatMap_cons, List.foldl_append]

/-- A slice and a step command do to the screen what writing their characters does. -/
theorem screen_act {action : Action} (h : action.executes = true) (machine : Machine) :
    (machine.act action).screen =
      (machine.characters action).foldl (fun screen code => (screen.write code).2)
        machine.screen := by
  have hstart : (machine.start action).2 = machine.screen :=
    congrArg Core.screen (coreOf_start machine action)
  have hend : (Clock.endOf (machine.start action) (machine.attempts action)).2 =
      (machine.act action).screen := congrArg Core.screen (core_endOf_attempts h machine)
  rw [← hend, screen_endOf_attempts, hstart]

section Sound

variable {config : Config} {pair : Pair} {machine : Machine}

/-- Between machine steps nothing waits at the display. -/
theorem idle_of_sound (h : (coreOf pair).Sound (layout config)) :
    Idle config pair.1.memory := by
  refine attached_of_layout h.layout fun adapter hadapter => ?_
  -- a sound core has no adapter with its strobe up
  obtain ⟨mapping, hmem, hmapping⟩ := List.exists_of_findSome?_eq_some hadapter
  have hsettled := h.settled mapping hmem
  rwa [Mapping.component_of_adapter? hmapping] at hsettled

/-- After a step the screen is handed what the step displays. -/
theorem characterAfter_eq (h : (coreOf pair).Sound (layout config)) :
    (characterAfter pair.1).toList =
      (encountersOf ⟨pair, (stepWithScreen pair).1, (stepWithScreen pair).2⟩).filterMap
        displayed? := by
  simp only [encountersOf, outcome_stepWithScreen]
  rcases characterAfter_cases pair.1 with ⟨hrefused, hnone⟩ | ⟨hran, hcharacter⟩
  · rw [hrefused, hnone]
    rfl
  · rw [hran, hcharacter, ← displayed_encounters (writesLast_step _) (idle_of_sound h)]
    rfl

theorem sound_stepWithScreen (h : (coreOf pair).Sound (layout config)) :
    (coreOf (stepWithScreen pair).2).Sound (layout config) := by
  rw [coreOf_stepWithScreen]
  split
  · exact h
  · exact sound_advance (distinct_layout config) h

/-- In the course of an action the screen is handed what the action displays, in order. -/
theorem characters_eq (h : machine.core.Sound (layout config)) (action : Action) :
    machine.characters action = (machine.encounters action).filterMap displayed? := by
  refine attempts_induction
    (motive := fun pair visits => (coreOf pair).Sound (layout config) →
      (visits.flatMap fun visit => (characterAfter visit.before.1).toList) =
        (visits.flatMap encountersOf).filterMap displayed?)
    (fun _ _ => rfl) ?_ machine action (by rwa [coreOf_start])
  intro pair outcome after rest hstep ih hpair
  have hcharacter := characterAfter_eq hpair
  have hafter := sound_stepWithScreen hpair
  rw [hstep] at hcharacter hafter
  rw [List.flatMap_cons, List.flatMap_cons, List.filterMap_append, ih hafter, hcharacter]

/-- Every attempt is a machine step, taken in a sound state. -/
theorem sound_of_mem_attempts (h : machine.core.Sound (layout config)) {action : Action}
    {visit : Clock.Visit Pair} (hmem : visit ∈ machine.attempts action) :
    (coreOf visit.before).Sound (layout config) ∧
      stepWithScreen visit.before = (visit.outcome, visit.after) := by
  have hstart : (coreOf (machine.start action)).Sound (layout config) := by rwa [coreOf_start]
  refine attempts_induction
    (motive := fun pair visits => (coreOf pair).Sound (layout config) → ∀ visit ∈ visits,
      (coreOf visit.before).Sound (layout config) ∧
        stepWithScreen visit.before = (visit.outcome, visit.after))
    (fun _ _ _ hvisit => absurd hvisit List.not_mem_nil) ?_ machine action hstart visit hmem
  intro pair outcome after rest hstep ih hpair visit hvisit
  have hafter := sound_stepWithScreen hpair
  rw [hstep] at hafter
  rcases List.mem_cons.mp hvisit with rfl | hvisit
  · exact ⟨hpair, hstep⟩
  · exact ih hafter visit hvisit

/-- The entry of an interrupt displays nothing. -/
theorem displayed_of_interrupted {visit : Clock.Visit Pair}
    (h : visit.before.1.registers.interrupted = true) :
    (encountersOf visit).filterMap displayed? = [] := by
  unfold encountersOf
  split
  · rfl
  · exact displayed_of_writesWithin (writesWithin_step_of_interrupted h) _

end Sound

/-! ## Sessions -/

variable {config : Config} {now : Nat} {fresh : Machine}

/-- No displayed character is lost, repeated or reordered. In every state that a session
leads to, a slice and a step command hand to the screen the bytes that the accesses of the
program display, each once and in order, and the screen writes them. So it is at each single
step, and a step that is refused and the entry of an interrupt hand over nothing. Between
actions the strobe is down. -/
theorem displayed_once_in_order (hbuilt : build? config now = .ok fresh)
    (actions : List Action) :
    (∀ action, action.executes = true →
      (fresh.run actions).characters action =
        ((fresh.run actions).encounters action).filterMap displayed? ∧
      ((fresh.run actions).act action).screen =
        ((fresh.run actions).characters action).foldl (fun screen code => (screen.write code).2)
          (fresh.run actions).screen ∧
      ∀ visit ∈ (fresh.run actions).attempts action,
        (characterAfter visit.before.1).toList = (encountersOf visit).filterMap displayed? ∧
        (visit.outcome.wasRefused = true ∨ visit.before.1.registers.interrupted = true →
          characterAfter visit.before.1 = none)) ∧
    (fresh.run actions).pia.strobe = false := by
  have hsound := sound_run hbuilt actions
  constructor
  · intro action hexecutes
    refine ⟨characters_eq hsound action, screen_act hexecutes _, ?_⟩
    intro visit hvisit
    obtain ⟨hbefore, hstep⟩ := sound_of_mem_attempts hsound hvisit
    have hcharacter := characterAfter_eq hbefore
    rw [hstep] at hcharacter
    refine ⟨hcharacter, fun hquiet => ?_⟩
    -- in both cases the attempt displays nothing
    have hnothing : (encountersOf visit).filterMap displayed? = [] := by
      rcases hquiet with hrefused | hinterrupted
      · simp [encountersOf, hrefused]
      · exact displayed_of_interrupted hinterrupted
    exact Option.toList_eq_nil_iff.mp (hcharacter.trans hnothing)
  · have hidle : Idle config (fresh.run actions).pair.1.memory := idle_of_sound hsound
    exact Attached.pia hidle

/-- A program that makes port B an output and then displays two letters. -/
theorem displayed_once_in_order_letters :
    ∃ fresh, build? { batch := 6 } 0 = .ok fresh ∧
      let machine := fresh.run [.flash "ram" [0x00, 0x00, 0xA9, 0x04, 0x8D, 0x13, 0xD0,
        0xA9, 0xC1, 0x8D, 0x12, 0xD0, 0xA9, 0xC2, 0x8D, 0x12, 0xD0], .command ⟨0, 0⟩ .start]
      machine.characters (.slice 1) = [0x41, 0x42] ∧
      (machine.encounters (.slice 1)).filterMap displayed? = [0x41, 0x42] := by
  obtain ⟨fresh, hbuilt⟩ := exists_build? { batch := 6 } 0
  have hrun : ((build? { batch := 6 } 0).toOption.map fun fresh =>
      (fresh.run [.flash "ram" [0x00, 0x00, 0xA9, 0x04, 0x8D, 0x13, 0xD0,
        0xA9, 0xC1, 0x8D, 0x12, 0xD0, 0xA9, 0xC2, 0x8D, 0x12, 0xD0],
        .command ⟨0, 0⟩ .start]).characters (.slice 1)) = some [0x41, 0x42] := by
    decide +kernel
  rw [hbuilt] at hrun
  have hcharacters := Option.some.inj hrun
  exact ⟨fresh, hbuilt, hcharacters,
    ((displayed_once_in_order hbuilt _).1 (.slice 1) rfl).1.symm.trans hcharacters⟩

end Machine

end AppleOne
