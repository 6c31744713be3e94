import AppleOne.Proofs.Machine.Core
import AppleOne.Proofs.Screen.Printable

/-!
# Driving a machine

A machine is driven by slices, step commands and key presses, among which a host may do
whatever leaves the core of the machine alone. What comes of it is decided by the script
alone: how many steps were carried out between which keys. How the steps were cut into
slices, how they were paced and what was asked in between does not matter.

Two cores that differ in what is not saved of them go on to differ in that only.

## Main definitions

* `Machine.Stimulus`, and `Machine.Core.stimulate`: a step or a key.
* `Machine.Action.drives`, and `Machine.script`: what a session comes to.
* `Machine.Core.Same`: cores with the same registers and the same components.
* `Machine.Core.Alike`: cores of which the same is saved.

## Main results

* `Machine.core_run_of_drives`: the core after a session is decided by its script.
* `Machine.same_stimulate`: cores stay the same.
* `Machine.alike_stimulate`, `Machine.alike_foldl_stimulate`: cores stay alike.
-/

namespace AppleOne.Machine

/-! ## Scripts -/

/-- What happens to the core of a machine that is driven. -/
inductive Stimulus where
  /-- A step of the processor, be it an instruction or the entry of an interrupt. -/
  | instruction
  | key (code : UInt8)
  deriving DecidableEq, Repr

/-- The core after a stimulus. -/
def Core.stimulate (core : Core) : Stimulus → Core
  | .instruction => core.advance
  | .key code => core.onAdapter (Keyboard.send code)

/-- The actions that reach the core by steps and keys only. -/
def Action.drives : Action → Bool
  | .slice _ | .command _ .step | .command _ (.keyDown _) => true
  | .command _ other => other.leavesCore
  | _ => false

/-- What an action comes to: as many steps as a slice reports, one for a step command, and
the code of a key that the machine has. -/
def stimuli (machine : Machine) : Action → List Stimulus
  | .slice now =>
    List.replicate (machine.slice now).2.1.lastSlice.instructions .instruction
  | .command _ .step => [.instruction]
  | .command _ (.keyDown key) => ((Keyboard.code? key).map .key).toList
  | _ => []

/-- What a session comes to. -/
def script (machine : Machine) : List Action → List Stimulus
  | [] => []
  | action :: rest => machine.stimuli action ++ (machine.act action).script rest

theorem foldl_stimulate_replicate (count : Nat) (core : Core) :
    (List.replicate count Stimulus.instruction).foldl Core.stimulate core =
      Core.advance^[count] core := by
  induction count generalizing core with
  | zero => rfl
  | succ count ih =>
    rw [List.replicate_succ, List.foldl_cons, Function.iterate_succ_apply]
    exact ih core.advance

/-- An action that drives a machine does to the core what it comes to. -/
theorem core_act_of_drives {action : Action} (h : action.drives = true) (machine : Machine) :
    (machine.act action).core = (machine.stimuli action).foldl Core.stimulate machine.core := by
  cases action with
  | slice now => exact (core_slice_iterate machine now).trans (foldl_stimulate_replicate _ _).symm
  | command time command =>
    cases command using Command.core_cases with
    | leaves command hleaves =>
      -- neither a step nor a key
      have hnothing : machine.stimuli (.command time command) = [] := by
        cases command <;> first | rfl | cases hleaves
      rw [hnothing]
      exact core_handle_of_leavesCore hleaves machine time
    | step => exact core_singleStep machine
    | keyDown key =>
      refine (core_pressKey machine key).trans ?_
      simp only [stimuli]
      cases Keyboard.code? key <;> rfl
    | loadState _ | setRubout _ | setProfiling _ | reset => cases h
  | reset _ | flash _ _ | flashJson _ _ | flashRom _ _ => cases h

/-- The core of a machine that was driven is decided by the script. -/
theorem core_run_of_drives {actions : List Action}
    (h : ∀ action ∈ actions, action.drives = true) (machine : Machine) :
    (machine.run actions).core = (machine.script actions).foldl Core.stimulate machine.core := by
  induction actions generalizing machine with
  | nil => rfl
  | cons action rest ih =>
    obtain ⟨haction, hrest⟩ := List.forall_mem_cons.mp h
    rw [run_cons, ih hrest, core_act_of_drives haction, script, List.foldl_append]

/-! ## Cores that run the same -/

/-- Cores with the same registers and the same components. -/
structure Core.Same (first second : Core) : Prop where
  registers : first.registers = second.registers
  mappings : first.mappings = second.mappings

variable {first second : Core}

/-- Nothing but the registers and the components has an influence on a step, and on the
character that it hands to the screen. -/
theorem same_advance (h : first.Same second) :
    first.advance.Same second.advance ∧
      (first.pair.1.memoryAfter.onPia servePia).1 =
        (second.pair.1.memoryAfter.onPia servePia).1 := by
  have hbus : first.pair.1.memory.mappings = second.pair.1.memory.mappings := h.mappings
  have hregisters : first.pair.1.registers = second.pair.1.registers := h.registers
  obtain ⟨hresult, -⟩ := Cpu.Transaction.run_alike Bus.simulation_mappings
    first.pair.1.registers.step hbus
  have hmemory := Cpu.memoryAfter_alike Bus.simulation_mappings hregisters hbus
  obtain ⟨hcharacter, hserved⟩ := Bus.onPia_congr hmemory servePia
  rw [Core.advance_eq, Core.advance_eq]
  refine ⟨⟨?_, hserved⟩, hcharacter⟩
  simp only [coreOf, Cpu.advance_eq]
  rw [hresult, hregisters]

theorem same_onAdapter (h : first.Same second) (act : Pia → Pia) :
    (first.onAdapter act).Same (second.onAdapter act) := by
  have hbus : first.pair.1.memory.mappings = second.pair.1.memory.mappings := h.mappings
  exact ⟨h.registers, (Bus.onPia_congr hbus fun pia => ((), act pia)).2⟩

theorem same_stimulate (h : first.Same second) (stimulus : Stimulus) :
    (first.stimulate stimulus).Same (second.stimulate stimulus) := by
  cases stimulus with
  | instruction => exact (same_advance h).1
  | key code => exact same_onAdapter h _

/-! ## Cores of which the same is saved -/

/-- Cores that agree in what is saved, but for the version of the screen. -/
structure Core.Alike (first second : Core) : Prop where
  registers : first.registers = second.registers
  mappings : first.mappings = second.mappings
  screen : first.screen.Alike second.screen

theorem Core.Alike.same (h : first.Alike second) : first.Same second :=
  ⟨h.registers, h.mappings⟩

theorem alike_shown {screen other : Screen} (h : screen.Alike other) (character : Option UInt8) :
    (shown screen character).Alike (shown other character) := by
  cases character with
  | none => exact h
  | some code => exact Screen.alike_write h code

/-- The last accesses, the profile and the version have no influence on a step. -/
theorem alike_advance (h : first.Alike second) : first.advance.Alike second.advance := by
  obtain ⟨hsame, hcharacter⟩ := same_advance h.same
  refine ⟨hsame.registers, hsame.mappings, ?_⟩
  -- equal adapters hand the same character to screens that are alike
  rw [Core.advance_eq, Core.advance_eq]
  simp only [coreOf]
  rw [hcharacter]
  exact alike_shown h.screen _

theorem alike_onAdapter (h : first.Alike second) (act : Pia → Pia) :
    (first.onAdapter act).Alike (second.onAdapter act) := by
  obtain ⟨hregisters, hmappings⟩ := same_onAdapter h.same act
  exact ⟨hregisters, hmappings, h.screen⟩

/-- A stimulus keeps cores alike. -/
theorem alike_stimulate (h : first.Alike second) (stimulus : Stimulus) :
    (first.stimulate stimulus).Alike (second.stimulate stimulus) := by
  cases stimulus with
  | instruction => exact alike_advance h
  | key code => exact alike_onAdapter h _

/-- The same script keeps cores alike. -/
theorem alike_foldl_stimulate (h : first.Alike second) (script : List Stimulus) :
    (script.foldl Core.stimulate first).Alike (script.foldl Core.stimulate second) := by
  induction script generalizing first second with
  | nil => exact h
  | cons stimulus rest ih => exact ih (alike_stimulate h stimulus)

end AppleOne.Machine
