import AppleOne.Proofs.Machine.Adapter
import AppleOne.Proofs.Machine.Resume
import AppleOne.Proofs.Pia.Waiting

/-!
# Keys

A key that is pressed waits at port A of the adapter until a program reads it. Neither the
steps of the program nor other commands can take it away before, unless they put the adapter
into another state altogether, by a reset, by loading a save file, or by another key.

The pulse of a key press is seen because the line of the keyboard is low before it. That is
so in every machine that has loaded nothing but what such machines saved.

## Main definitions

* `Machine.takesKey`: the access that reads a key.
* `Machine.Action.sparesKeys`: the actions that leave a waiting key alone.
* `Machine.Authentic`: machines that loaded nothing but what such machines saved.

## Main results

* `Machine.waiting_after`: an access that does not read the key keeps it waiting.
* `Machine.ready_of_authentic`: the line of the keyboard is low between actions.
* `Machine.key_waits_until_read`: a key waits until it is read.
-/

namespace AppleOne

open Cpu

namespace Machine

variable {config : Config} {code : UInt8} {Q : Pia → Prop} {machine : Machine}

/-! ## Accesses -/

/-- A read of the data register of port A, which takes the key that waits there. -/
def takesKey (encounter : Encounter Bus) : Bool :=
  match encounter.access with
  | .read address _ => address == 0xD010 && encounter.memory.pia?.any (·.a.dataSelected)
  | .write _ _ => false

/-- An access that does not read the key keeps it waiting. -/
theorem waiting_after {encounter : Encounter Bus}
    (h : Attached config (Pia.Waiting code) encounter.memory.mappings)
    (hspares : takesKey encounter = false) :
    Attached config (Pia.Waiting code) encounter.after.mappings := by
  obtain ⟨memory, ⟨address, value⟩ | ⟨address, value⟩⟩ := encounter
  · refine h.read address fun haddress adapter hpia hwaiting => ?_
    refine Pia.waiting_read hwaiting fun hregister => ?_
    -- the only address of port A's data register is the first one
    obtain rfl : address = 0xD010 := by
      obtain rfl | rfl | rfl | rfl := register_cases haddress
      · rfl
      · cases hregister
      · cases hregister
      · cases hregister
    simpa [takesKey, hpia] using hspares
  · exact h.write address value fun _ adapter hwaiting => Pia.waiting_write hwaiting _ value

/-- The service of the display is a tick for port A. -/
theorem servePia_a (adapter : Pia) : (servePia adapter).2.a = adapter.a.tick := by
  unfold servePia takeCharacter
  simp only
  split <;> rfl

theorem waiting_servePia {adapter : Pia} (h : adapter.Waiting code) :
    (servePia adapter).2.Waiting code := by
  obtain ⟨hflag, hinput, hline⟩ := Pia.waiting_tick h
  have hport : (servePia adapter).2.a = adapter.tick.a := servePia_a adapter
  exact ⟨hport ▸ hflag, hport ▸ hinput, hport ▸ hline⟩

/-! ## Actions -/

/-- The actions that leave a waiting key alone, but for the accesses that they make: all but
another key, a reset and the loading of a save file. -/
def Action.sparesKeys : Action → Bool
  | .command _ (.keyDown key) => (Keyboard.code? key).isNone
  | .command _ .reset | .command _ (.loadState _) | .reset _ | .flashRom _ _ => false
  | _ => true

/-- A key press gives the machine an adapter to which the key was sent. -/
theorem Attached.pressKey {R : Pia → Prop} (h : Attached config Q machine.core.mappings)
    {key : String} (hcode : Keyboard.code? key = some code)
    (hsend : ∀ adapter, Q adapter → R (Keyboard.send code adapter)) :
    Attached config R (machine.pressKey key).core.mappings := by
  have hbus : Attached config Q machine.core.pair.1.memory.mappings := h
  rw [core_pressKey, hcode]
  exact hbus.onPia (fun pia => ((), Keyboard.send code pia)) (fun _ => rfl) hsend

/-- Such an action leaves the adapter alone, if it does not let programs run. -/
theorem Attached.act {action : Action} (h : Attached config Q machine.core.mappings)
    (hspares : action.sparesKeys = true) (hexecutes : action.executes = false) :
    Attached config Q (machine.act action).core.mappings := by
  cases action with
  | command time command =>
    cases command using Command.core_cases with
    | leaves command hleaves =>
      have hcore : (machine.act (.command time command)).core = machine.core :=
        core_handle_of_leavesCore hleaves machine time
      rwa [hcore]
    | keyDown key =>
      -- a key that the machine has would not spare the one that waits
      have hnone : Keyboard.code? key = none := by simpa [Action.sparesKeys] using hspares
      have hcore : (machine.act (.command time (.keyDown key))).core = machine.core :=
        (core_pressKey machine key).trans (by rw [hnone])
      rwa [hcore]
    | setRubout enabled => exact h
    | setProfiling enabled =>
      obtain ⟨counts, hswitched⟩ := machine.exists_handle_setProfiling time enabled
      rw [Machine.act, hswitched]
      exact h
    | step => cases hexecutes
    | loadState _ | reset => cases hspares
  | slice now => cases hexecutes
  | reset _ | flashRom _ _ => cases hspares
  | flash id payload => exact h.onBank id fun bank => bank.clear_flash payload
  | flashJson id payload => exact h.onBank id fun bank => bank.clear_flashJson payload

/-! ## The line of the keyboard -/

/-- Whether an action loads a save file. -/
def Action.loads : Action → Bool
  | .command _ (.loadState _) => true
  | _ => false

/-- A sound machine at which the line of the keyboard is low. -/
structure Ready (config : Config) (machine : Machine) : Prop where
  sound : machine.core.Sound (layout config)
  line : Attached config (·.a.c1 = .low) machine.core.mappings

/-- After a key press, whatever was before, the line is low. -/
theorem line_send (code : UInt8) (adapter : Pia) : (Keyboard.send code adapter).a.c1 = .low := rfl

/-- No access moves the line. -/
theorem line_after (encounter : Encounter Bus)
    (h : Attached config (·.a.c1 = .low) encounter.memory.mappings) :
    Attached config (·.a.c1 = .low) encounter.after.mappings := by
  obtain ⟨memory, ⟨address, value⟩ | ⟨address, value⟩⟩ := encounter
  · exact h.read address fun _ adapter _ hline => (adapter.read_c1 _).trans hline
  · exact h.write address value fun _ adapter hline => (adapter.write_c1 _ value).trans hline

theorem line_servePia (adapter : Pia) (h : adapter.a.c1 = .low) :
    (servePia adapter).2.a.c1 = .low := by
  rw [servePia_a]
  exact Pia.tick_c1 h

/-- The actions that do not spare a waiting key leave the line low all the same, unless they
load something. -/
theorem line_act_of_not_sparesKeys {action : Action} (hspares : action.sparesKeys = false)
    (hloads : action.loads = false) (h : Attached config (·.a.c1 = .low) machine.core.mappings) :
    Attached config (·.a.c1 = .low) (machine.act action).core.mappings := by
  cases action with
  | command time command =>
    cases command with
    | keyDown key =>
      have hkey : (Keyboard.code? key).isSome = true := by
        simpa [Action.sparesKeys] using hspares
      obtain ⟨code, hcode⟩ := Option.isSome_iff_exists.mp hkey
      -- sending a key ends with the line low again
      exact h.pressKey hcode fun adapter _ => line_send code adapter
    | reset => exact h.reset time.micros fun _ => rfl
    | loadState document => cases hloads
    | _ => cases hspares
  | reset now => exact h.reset now fun _ => rfl
  | flashRom now payload =>
    have hflash : Attached config (·.a.c1 = .low)
        (machine.flash romName payload).2.core.mappings :=
      h.onBank romName fun bank => bank.clear_flash payload
    rcases machine.flashRom_cases now payload with hsame | hreset
    · rw [act, hsame]
      exact hflash
    · rw [act, hreset]
      exact hflash.reset now fun _ => rfl
  | _ => cases hspares

/-- Every action but a load leaves the line low. -/
theorem ready_act (h : Ready config machine) {action : Action} (hloads : action.loads = false) :
    Ready config (machine.act action) := by
  refine ⟨sound_act (distinct_layout config) h.sound action, ?_⟩
  have hchain : Encounter.KeptUntil (fun _ => false)
      (fun bus => Attached config (·.a.c1 = .low) bus.mappings)
      (Attached config (·.a.c1 = .low) (machine.act action).core.mappings)
      (machine.encounters action) := by
    refine keptUntil_encounters (P := Attached config (·.a.c1 = .low))
      (fun encounter hline _ => line_after encounter hline)
      (fun bus hline => hline.onPia servePia servePia_source line_servePia)
      (fun hexecutes hline => ?_) h.line
    cases hspares : action.sparesKeys with
    | true => exact hline.act hspares hexecutes
    | false => exact line_act_of_not_sparesKeys hspares hloads hline
  -- no access ends the chain, so what it keeps holds after the action
  exact hchain.reached fun _ _ => rfl

theorem ready_build? {now : Nat} (hbuilt : build? config now = .ok machine) :
    Ready config machine := by
  refine ⟨sound_build? hbuilt, ?_⟩
  obtain ⟨bus, hmapped, hfetched⟩ := mappings_build? hbuilt
  have hline : Attached config (·.a.c1 = .low) bus.mappings := by
    have hmem : (⟨0xD010, 0xD013, piaName, .pia (.initial piaName)⟩ : Mapping) ∈ layout config := by
      simp [layout]
    have hinitial : (layout config).findSome? Mapping.adapter? = some (.initial piaName) :=
      Bus.findSome?_adapter? (distinct_layout config).adapters hmem rfl
    exact ⟨by rw [hmapped], _, by rw [hmapped, hinitial], rfl⟩
  have hread (address : UInt16) (bus : Bus) (h : Attached config (·.a.c1 = .low) bus.mappings) :
      Attached config (·.a.c1 = .low) (bus.read address).2.mappings :=
    line_after ⟨bus, .read address 0⟩ h
  rw [hfetched]
  exact hread _ _ (hread _ _ hline)

/-- Machines that were built and went through all kinds of actions, but loaded nothing
except what such machines saved. What cannot be loaded may have come from anywhere. -/
inductive Authentic : Machine → Prop
  | built {config : Config} {now : Nat} {machine : Machine} :
    build? config now = .ok machine → Authentic machine
  | act {machine : Machine} {action : Action} :
    Authentic machine → action.loads = false → Authentic (machine.act action)
  | load {machine saver : Machine} (time saved : Time) (form : Json.Form) :
    Authentic machine → Authentic saver →
      Authentic (machine.act
        (.command time (.loadState (form.apply (saver.saveFile saved).encode))))
  | refused {machine : Machine} {time : Time} {document : Json} {reason : LoadError} :
    Authentic machine → SaveFile.ofJson document = .error reason →
      Authentic (machine.act (.command time (.loadState document)))

/-- Between actions the line of the keyboard is low. -/
theorem ready_of_authentic (h : Authentic machine) : ∃ config, Ready config machine := by
  induction h with
  | built hbuilt => exact ⟨_, ready_build? hbuilt⟩
  | act _ hloads ih =>
    obtain ⟨config, hready⟩ := ih
    exact ⟨config, ready_act hready hloads⟩
  | @load machine saver time saved form _ _ ih ihsaver =>
    -- the line is restored as it was saved, and it was low there
    obtain ⟨config, hready⟩ := ih
    obtain ⟨_, hsaver⟩ := ihsaver
    refine ⟨config, sound_act (distinct_layout config) hready.sound _, ?_⟩
    obtain ⟨level, text, hload⟩ := load_saveFile saver machine saved time.micros form
    have hline : saver.pia.a.c1 = .low := hsaver.line.pia
    simp only [Machine.act, handle, hload]
    exact hready.line.restore time.micros saver.snapshot fun _ => hline
  | @refused machine time document reason _ hreason ih =>
    obtain ⟨config, hready⟩ := ih
    refine ⟨config, sound_act (distinct_layout config) hready.sound _, ?_⟩
    rw [Machine.act, handle_loadState_of_error hreason]
    exact hready.line

/-! ## Keys that wait -/

/-- A key that no access of a session reads waits throughout, and the first one that does
finds it waiting. -/
theorem waiting_sessionEncounters
    (h : Attached config (Pia.Waiting code) machine.core.mappings) {actions : List Action}
    (hspares : ∀ action ∈ actions, action.sparesKeys = true) :
    Encounter.KeptUntil takesKey (fun bus => Attached config (Pia.Waiting code) bus.mappings)
      (Attached config (Pia.Waiting code) (machine.run actions).core.mappings)
      (machine.sessionEncounters actions) :=
  keptUntil_sessionEncounters (P := Attached config (Pia.Waiting code))
    (fun _ hwaiting hends => waiting_after hwaiting hends)
    (fun _ hwaiting => hwaiting.onPia servePia servePia_source fun _ => waiting_servePia)
    (fun _ action hmem hexecutes hwaiting => hwaiting.act (hspares action hmem) hexecutes) h

/-- The access that reads a key lowers the flags, and gives the program the code if the data
lines are inputs. -/
theorem after_of_takesKey {encounter : Encounter Bus}
    (hlayout : encounter.memory.layout = (layout config).map Mapping.blank)
    (hfaithful : encounter.Faithful) (htakes : takesKey encounter = true) {adapter : Pia}
    (hadapter : encounter.memory.pia? = some adapter) (hwaiting : adapter.Waiting code) :
    ∃ after, encounter.after.pia? = some after ∧
      after.a.controlBit 0x80 = false ∧ after.a.controlBit 0x40 = false ∧
      (adapter.a.direction = 0 → encounter.access = .read 0xD010 (code ||| 0x80)) := by
  obtain ⟨memory, ⟨address, value⟩ | ⟨address, value⟩⟩ := encounter
  · have hpia : memory.pia? = some adapter := hadapter
    obtain ⟨rfl, hselected⟩ : address = 0xD010 ∧ adapter.a.dataSelected = true := by
      simpa [takesKey, hpia] using htakes
    obtain ⟨hc1, hc2, hvalue⟩ := Pia.read_of_waiting hwaiting hselected
    -- the first address of the adapter is the data register of port A
    have hholds := holds_of_layout hlayout 0xD010
    rw [place_eq_register (by decide)] at hholds
    obtain ⟨other, hother, -, hread, hafter, -⟩ := hholds
    obtain rfl : adapter = other := Option.some.inj (hpia.symm.trans hother)
    refine ⟨_, hafter, hc1, hc2, fun hdirection => ?_⟩
    have hbyte : value = (adapter.read 0).1 := hfaithful.trans hread
    rw [hbyte, hvalue hdirection]
  · cases htakes

/-- A key that is pressed waits until it is read. In every machine that has loaded nothing
but what such machines saved, the flag of CA1 is up after the key press, the code lies on
port A, and CA1 is low; this stays so until an access reads the data register of port A, in
every session without another key, a reset or a load. The first such access lowers the flags
and, if all data lines are inputs, reads the code. A key that the machine does not have
leaves the adapter as it is. -/
theorem key_waits_until_read (h : Authentic machine) (time : Time) (key : String) :
    let pressed := machine.act (.command time (.keyDown key))
    (Keyboard.code? key = none → pressed.pia = machine.pia) ∧
    ∀ code, Keyboard.code? key = some code →
      pressed.pia.Waiting code ∧
      ∀ actions, (∀ action ∈ actions, action.sparesKeys = true) →
        ((∀ encounter ∈ pressed.sessionEncounters actions, takesKey encounter = false) →
          (pressed.run actions).pia.Waiting code) ∧
        ∀ earlier encounter later,
          pressed.sessionEncounters actions = earlier ++ encounter :: later →
          (∀ other ∈ earlier, takesKey other = false) →
          ∃ adapter, encounter.memory.pia? = some adapter ∧ adapter.Waiting code ∧
            (takesKey encounter = true →
              ∃ after, encounter.after.pia? = some after ∧
                after.a.controlBit 0x80 = false ∧ after.a.controlBit 0x40 = false ∧
                (adapter.a.direction = 0 →
                  encounter.access = .read 0xD010 (code ||| 0x80))) := by
  intro pressed
  obtain ⟨config, hready⟩ := ready_of_authentic h
  constructor
  · intro hnone
    have hcore : pressed.core = machine.core :=
      (core_pressKey machine key).trans (by rw [hnone])
    exact congrArg (fun core : Core =>
      (core.mappings.findSome? Mapping.adapter?).getD (.initial piaName)) hcore
  · intro code hcode
    -- the line was low, so the pulse was seen
    have hpressed : Attached config (Pia.Waiting code) pressed.core.mappings :=
      hready.line.pressKey hcode fun _ hline => Keyboard.waiting_send hline code
    refine ⟨hpressed.pia, fun actions hspares => ?_⟩
    have hchain := waiting_sessionEncounters hpressed hspares
    refine ⟨fun hnone => (hchain.reached hnone).pia, ?_⟩
    intro earlier encounter later hsplit hearlier
    rw [hsplit] at hchain
    have hmet := hchain.holds_at hearlier
    obtain ⟨adapter, hadapter, hwaiting⟩ := hmet.adapter
    have hmem : encounter ∈ pressed.sessionEncounters actions := by simp [hsplit]
    obtain ⟨before, action, after, -, haction⟩ := exists_of_mem_sessionEncounters hmem
    exact ⟨adapter, hadapter, hwaiting, fun htakes => after_of_takesKey hmet.layout
      (faithful_of_mem_encounters haction) htakes hadapter hwaiting⟩

/-- A program that makes the data of port A accessible and reads a key that was pressed
before it ran. -/
theorem key_waits_until_read_by_program :
    ∃ machine encounter, Authentic machine ∧
      encounter ∈ (machine.act (.command ⟨1, 0⟩ (.keyDown "a"))).sessionEncounters
        [.command ⟨2, 0⟩ .start, .slice 3] ∧
      takesKey encounter = true ∧ encounter.access = .read 0xD010 0xC1 := by
  obtain ⟨fresh, hbuilt⟩ := exists_build? { batch := 3 } 0
  have hrun : ((build? { batch := 3 } 0).toOption.map fun fresh =>
      (((fresh.act (.flash "ram" [0x00, 0x00, 0xA9, 0x04, 0x8D, 0x11, 0xD0,
        0xAD, 0x10, 0xD0])).act (.command ⟨1, 0⟩ (.keyDown "a"))).sessionEncounters
          [.command ⟨2, 0⟩ .start, .slice 3]).map fun encounter : Encounter Bus =>
        (takesKey encounter, encounter.memory.pia?.map fun adapter : Pia => adapter.a.direction)) =
      some (List.replicate 9 (false, some 0) ++ [(true, some 0)]) := by
    decide +kernel
  rw [hbuilt] at hrun
  obtain ⟨earlier, last, hsplit, hearlier, hlast⟩ :=
    List.map_eq_append_iff.mp (Option.some.inj hrun)
  obtain ⟨encounter, rfl, hencounter⟩ := List.map_eq_singleton_iff.mp hlast
  obtain ⟨htakes, hdirection⟩ := Prod.mk.inj hencounter
  have hspared : ∀ other ∈ earlier, takesKey other = false := by
    intro other hother
    have hmem : (takesKey other, other.memory.pia?.map fun adapter : Pia => adapter.a.direction) ∈
        List.replicate 9 (false, some 0) := hearlier ▸ List.mem_map.mpr ⟨other, hother, rfl⟩
    exact congrArg Prod.fst (List.eq_of_mem_replicate hmem)
  have hmachine : Authentic (fresh.act (.flash "ram" [0x00, 0x00, 0xA9, 0x04, 0x8D, 0x11, 0xD0,
      0xAD, 0x10, 0xD0])) := .act (.built hbuilt) rfl
  obtain ⟨-, hpressed⟩ := key_waits_until_read hmachine ⟨1, 0⟩ "a"
  obtain ⟨-, hwaits⟩ := hpressed 0x41 (by decide)
  obtain ⟨adapter, hadapter, -, hread⟩ :=
    (hwaits _ (by decide)).2 earlier encounter [] hsplit hspared
  obtain ⟨-, -, -, -, haccess⟩ := hread htakes
  have hinputs : adapter.a.direction = 0 := by simpa [hadapter] using hdirection
  exact ⟨_, encounter, hmachine, by rw [hsplit]; simp, htakes, haccess hinputs⟩

end Machine

end AppleOne
