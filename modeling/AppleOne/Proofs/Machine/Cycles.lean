import AppleOne.Proofs.Cpu.Passage
import AppleOne.Proofs.Machine.Encounters
import AppleOne.Proofs.Wire.SaveFile
import Mathlib.Algebra.GroupWithZero.Nat

/-!
# The cycle counter

The counter of a machine goes on by what the steps report. It has 64 bits, and a save file may
set it to any number that fits, so it can be taken to its end; there it starts again from zero.
As long as the sum of the old counter and the cycles reported fits, the counter is that sum, and
then it does not go back in any session without a reset or a load.

## Main definitions

* `Clock.spent`: the cycles that visits report.
* `Machine.cycles`, `Machine.spent`: the counter, and the cycles that a session spends.
* `Machine.rewinds`: the actions that set the counter.

## Main results

* `Machine.cycles_stepWithScreen`: the counter after a machine step.
* `Machine.cycles_act`, `Machine.cycles_run`: the counter after actions that do not set it.
* `Machine.cycles_counted`: what the counter is counted up to.
* `Machine.cycles_go_back`: a load after which a step takes the counter back.
-/

namespace AppleOne

/-- The cycles that visits report, as a number without bounds. -/
def Clock.spent {σ : Type} (visits : List (Clock.Visit σ)) : Nat :=
  (visits.map fun visit => visit.outcome.cycles.toNat).sum

@[simp] theorem Clock.spent_cons {σ : Type} (visit : Clock.Visit σ)
    (rest : List (Clock.Visit σ)) :
    spent (visit :: rest) = visit.outcome.cycles.toNat + spent rest :=
  List.sum_cons

namespace Machine

/-- The cycle counter. -/
def cycles (machine : Machine) : Nat := machine.runner.cpu.registers.cycles.toNat

/-- The cycles that the machine steps of a session report. -/
def spent (machine : Machine) : List Action → Nat
  | [] => 0
  | action :: rest => Clock.spent (machine.attempts action) + (machine.act action).spent rest

/-- Whether an action sets the counter: a reset, or the loading of a save file. -/
def rewinds (machine : Machine) : Action → Bool
  | .reset _ | .command _ .reset => true
  | .command _ (.loadState document) => (SaveFile.ofJson document).isOk
  | .flashRom now payload => (machine.flashRom now payload).1.isOk
  | _ => false

variable {machine : Machine} {action : Action} {actions : List Action}

/-! ## Machine steps -/

/-- A machine step adds to the counter what it reports. One that is carried out reports
between two and nine cycles, and a refused one none. -/
theorem cycles_stepWithScreen (pair : Pair) :
    ((stepWithScreen pair).1.wasRefused = false →
      2 ≤ (stepWithScreen pair).1.cycles.toNat ∧ (stepWithScreen pair).1.cycles.toNat ≤ 9) ∧
    (stepWithScreen pair).2.1.registers.cycles.toNat =
      (pair.1.registers.cycles.toNat + (stepWithScreen pair).1.cycles.toNat) % UInt64.size := by
  obtain ⟨memo, hstep | hstep⟩ := stepWithScreen_cases pair
  · obtain ⟨hlow, hhigh, hcycles⟩ := Cpu.cycles_advance { pair.1 with bypass := false, memo }
    rw [hstep]
    -- the service of the display does not touch the processor
    exact ⟨fun _ => ⟨hlow, hhigh.trans (by decide)⟩, hcycles⟩
  · rw [hstep]
    exact ⟨nofun, (Nat.mod_eq_of_lt (UInt64.toNat_lt _)).symm⟩

/-- After machine steps the counter has gone on by all that they report. -/
theorem cycles_endOf_attempts (machine : Machine) (action : Action) :
    (Clock.endOf (machine.start action) (machine.attempts action)).1.registers.cycles.toNat =
      (machine.cycles + Clock.spent (machine.attempts action)) % UInt64.size := by
  have hstart : (machine.start action).1.registers.cycles.toNat = machine.cycles :=
    congrArg (fun core : Core => core.registers.cycles.toNat) (coreOf_start machine action)
  rw [← hstart]
  -- the cycles of the first step come before those of the others
  refine attempts_induction (motive := fun pair visits =>
    (Clock.endOf pair visits).1.registers.cycles.toNat =
      (pair.1.registers.cycles.toNat + Clock.spent visits) % UInt64.size)
    (fun pair => (Nat.mod_eq_of_lt (UInt64.toNat_lt _)).symm) ?_ machine action
  intro pair outcome after rest hstep ih
  obtain ⟨-, hcycles⟩ := cycles_stepWithScreen pair
  rw [hstep] at hcycles
  rw [Clock.endOf_cons, ih, hcycles, Clock.spent_cons, Nat.mod_add_mod, Nat.add_assoc]

/-! ## Actions -/

/-- What a host does between machine steps leaves the registers, unless it sets the counter. -/
theorem registers_act_of_not_executes (hrewinds : machine.rewinds action = false)
    (hexecutes : action.executes = false) :
    (machine.act action).runner.cpu.registers = machine.runner.cpu.registers := by
  have hbank (id : String) (act : Bank → Except FlashRefusal Nat × Bank × List Note) :
      (machine.onBank id act).2.runner.cpu.registers = machine.runner.cpu.registers := by
    obtain ⟨bus, hacted⟩ := machine.exists_onBank id act
    rw [hacted]
    rfl
  cases action with
  | command time command =>
    cases command using Command.core_cases with
    | leaves command hleaves =>
      exact congrArg Core.registers (core_handle_of_leavesCore hleaves machine time)
    | keyDown key =>
      obtain ⟨bus, hpressed⟩ := machine.exists_pressKey key
      simp only [act, handle, hpressed]
      rfl
    | loadState document =>
      cases hfile : SaveFile.ofJson document with
      | error reason =>
        rw [act, handle_loadState_of_error hfile]
        rfl
      | ok file => simp [rewinds, hfile, Except.isOk, Except.toBool] at hrewinds
    | setRubout enabled => rfl
    | setProfiling enabled =>
      obtain ⟨counts, hswitched⟩ := machine.exists_handle_setProfiling time enabled
      rw [act, hswitched]
      rfl
    | reset => cases hrewinds
    | step => cases hexecutes
  | slice now => cases hexecutes
  | reset now => cases hrewinds
  | flash id payload => exact hbank id _
  | flashJson id payload => exact hbank id _
  | flashRom now payload =>
    -- a payload that is accepted would be followed by a reset
    have hflash : (machine.flash romName payload).2.runner.cpu.registers =
        machine.runner.cpu.registers := hbank romName (·.flash payload)
    simp only [rewinds, flashRom] at hrewinds
    simp only [act, flashRom]
    cases hresult : machine.flash romName payload with
    | mk result flashed =>
      rw [hresult] at hflash hrewinds
      cases result with
      | ok stored => cases hrewinds
      | error reason => exact hflash

/-- An action that does not set the counter takes it on by what the machine steps report. -/
theorem cycles_act (hrewinds : machine.rewinds action = false) :
    (machine.act action).cycles =
      (machine.cycles + Clock.spent (machine.attempts action)) % UInt64.size := by
  cases hexecutes : action.executes with
  | true =>
    rw [← cycles_endOf_attempts]
    exact congrArg (fun core : Core => core.registers.cycles.toNat)
      (core_endOf_attempts hexecutes machine).symm
  | false =>
    have hsame : (machine.act action).cycles = machine.cycles :=
      congrArg (fun registers : Cpu.Registers => registers.cycles.toNat)
        (registers_act_of_not_executes hrewinds hexecutes)
    rw [hsame, attempts_of_not_executes hexecutes]
    exact (Nat.mod_eq_of_lt (UInt64.toNat_lt _)).symm

/-- A session that never sets the counter takes it on by all that is spent. -/
theorem cycles_run
    (h : ∀ earlier action later, actions = earlier ++ action :: later →
      (machine.run earlier).rewinds action = false) :
    (machine.run actions).cycles = (machine.cycles + machine.spent actions) % UInt64.size := by
  induction actions generalizing machine with
  | nil => exact (Nat.mod_eq_of_lt (UInt64.toNat_lt _)).symm
  | cons action rest ih =>
    have hrest : ∀ earlier other later, rest = earlier ++ other :: later →
        ((machine.act action).run earlier).rewinds other = false :=
      fun earlier other later hsplit => h (action :: earlier) other later (by rw [hsplit]; rfl)
    have hfirst : machine.rewinds action = false := h [] action rest rfl
    rw [run_cons, ih hrest, cycles_act hfirst, spent, Nat.mod_add_mod, Nat.add_assoc]

/-! ## What the counter counts up to -/

/-- A sum below twice the range, cut to 64 bits. -/
theorem mod_size_of_lt {sum : Nat} (h : sum < 2 * UInt64.size) :
    sum % UInt64.size = if sum < UInt64.size then sum else sum - UInt64.size := by
  split_ifs with hlt
  · exact Nat.mod_eq_of_lt hlt
  · rw [Nat.mod_eq_sub_mod (Nat.not_lt.mp hlt)]
    exact Nat.mod_eq_of_lt (by omega)

/-- Whatever state a machine is in, a step that is carried out reports between two and nine
cycles, and the counter goes on by what is reported: it is the sum if the sum fits in 64 bits,
and otherwise less by the whole range. So in a session in which nothing is reset and no save
file is loaded the counter is what it was and all that was spent, as long as that fits. A reset
sets it to zero, and a load to the number in the file. -/
theorem cycles_counted (machine : Machine) :
    (∀ action, ∀ visit ∈ machine.attempts action,
      let sum := visit.before.1.registers.cycles.toNat + visit.outcome.cycles.toNat
      (visit.outcome.wasRefused = false →
        2 ≤ visit.outcome.cycles.toNat ∧ visit.outcome.cycles.toNat ≤ 9) ∧
      visit.after.1.registers.cycles.toNat =
        if sum < UInt64.size then sum else sum - UInt64.size) ∧
    (∀ actions, (∀ earlier action later, actions = earlier ++ action :: later →
        (machine.run earlier).rewinds action = false) →
      machine.cycles + machine.spent actions < UInt64.size →
      (machine.run actions).cycles = machine.cycles + machine.spent actions) ∧
    (∀ now, (machine.reset now).cycles = 0) ∧
    ∀ time document file, SaveFile.ofJson document = .ok file →
      (machine.act (.command time (.loadState document))).cycles =
        file.state.registers.cycles.toNat := by
  refine ⟨fun action visit hmem => ?_, fun actions hrewinds hfits => ?_, fun _ => rfl, ?_⟩
  · obtain ⟨hspent, hcycles⟩ := cycles_stepWithScreen visit.before
    rw [step_of_mem_attempts hmem] at hspent hcycles
    have hbefore := visit.before.1.registers.cycles.toNat_lt
    have hbyte := visit.outcome.cycles.toNat_lt
    refine ⟨hspent, hcycles.trans (mod_size_of_lt ?_)⟩
    simp only [UInt64.size]
    omega
  · rw [cycles_run hrewinds, Nat.mod_eq_of_lt hfits]
  · intro time document file hfile
    simp only [act, handle, load, hfile]
    rfl

/-- A file whose counter stands at some number. -/
def countedFile (cycles : UInt64) : SaveFile :=
  .stamp ⟨[], { Cpu.Registers.initial with cycles }, .initial, none⟩ 0

theorem ofJson_countedFile (cycles : UInt64) :
    SaveFile.ofJson (countedFile cycles).encode = .ok (countedFile cycles) := by
  have hcursor : ∀ screen ∈ (countedFile cycles).state.screen, screen.CursorFits := nofun
  exact SaveFile.ofJson_apply_encode hcursor .written

/-- A machine into which such a file was loaded. -/
def withCounter (machine : Machine) (cycles : UInt64) : Machine :=
  machine.act (.command ⟨1, 0⟩ (.loadState (countedFile cycles).encode))

/-- Two single steps. -/
def twoSteps : List Action := [.command ⟨2, 0⟩ .step, .command ⟨3, 0⟩ .step]

/-- Two instructions of seven cycles are counted after a load. -/
theorem cycles_counted_after_load :
    ∃ fresh, build? {} 0 = .ok fresh ∧ (fresh.withCounter 5).cycles = 5 ∧
      ((fresh.withCounter 5).run twoSteps).cycles = 19 := by
  obtain ⟨fresh, hbuilt⟩ := exists_build? {} 0
  have hrun : ((build? {} 0).toOption.map fun fresh => (fresh.withCounter 5).spent twoSteps) =
      some 14 := by
    decide +kernel
  rw [hbuilt] at hrun
  have hspent : (fresh.withCounter 5).spent twoSteps = 14 := Option.some.inj hrun
  obtain ⟨-, -, -, hload⟩ := cycles_counted fresh
  have hloaded : (fresh.withCounter 5).cycles = 5 := hload ⟨1, 0⟩ _ _ (ofJson_countedFile 5)
  obtain ⟨-, hsum, -⟩ := cycles_counted (fresh.withCounter 5)
  refine ⟨fresh, hbuilt, hloaded, ?_⟩
  rw [hsum twoSteps ?_ (by rw [hspent, hloaded]; decide), hspent, hloaded]
  intro earlier action later hsplit
  have hmem : action ∈ twoSteps := hsplit ▸ by simp
  rcases List.mem_cons.mp hmem with rfl | hmem
  · rfl
  · obtain rfl := List.mem_singleton.mp hmem
    rfl

/-- The counter of a file may be at its end. Then the next instruction, which reports seven
cycles, takes it back to six. -/
theorem cycles_go_back :
    ∃ fresh, build? {} 0 = .ok fresh ∧
      let file := countedFile 0xFFFFFFFFFFFFFFFF
      let loaded := fresh.withCounter 0xFFFFFFFFFFFFFFFF
      SaveFile.ofJson file.encode = .ok file ∧
        loaded.cycles = 0xFFFFFFFFFFFFFFFF ∧
        (loaded.attempts (.command ⟨2, 0⟩ .step)).map (·.outcome) = [.ran 7] ∧
        (loaded.act (.command ⟨2, 0⟩ .step)).cycles = 6 := by
  obtain ⟨fresh, hbuilt⟩ := exists_build? {} 0
  have hrun : ((build? {} 0).toOption.map fun fresh =>
      let loaded := fresh.withCounter 0xFFFFFFFFFFFFFFFF
      (loaded.cycles, (loaded.attempts (.command ⟨2, 0⟩ .step)).map (·.outcome),
        (loaded.act (.command ⟨2, 0⟩ .step)).cycles)) =
      some (0xFFFFFFFFFFFFFFFF, [.ran 7], 6) := by
    decide +kernel
  rw [hbuilt] at hrun
  obtain ⟨hloaded, hrest⟩ := Prod.mk.inj (Option.some.inj hrun)
  obtain ⟨hreported, hafter⟩ := Prod.mk.inj hrest
  exact ⟨fresh, hbuilt, ofJson_countedFile _, hloaded, hreported, hafter⟩

end Machine

end AppleOne
