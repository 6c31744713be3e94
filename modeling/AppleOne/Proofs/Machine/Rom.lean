import AppleOne.Proofs.Machine.Load

/-!
# Programs and ROM

No program can alter ROM. A write reaches one byte at most, the one that its address stands
for, and no address of a machine stands for a byte of ROM that can be changed; all that comes
of such a write is a warning. A host can put other bytes into ROM, by flashing the bank or by
loading a save file that has an image of it, and in no other way.

## Main definitions

* `Machine.Action.rewritesRom`: the actions that put bytes into ROM.
* `Machine.WithRom`: mappings of a machine with some ROM.

## Main results

* `Machine.rom_act`, `Machine.rom_run`: the other actions leave ROM as it is.
* `Machine.rom_protected`: programs and ROM throughout a session.
-/

namespace AppleOne.Machine

open Cpu

/-- Whether an action puts bytes into ROM: flashing it, or loading a file with an image of
it. -/
def Action.rewritesRom : Action → Bool
  | .flashRom _ _ => true
  | .flash id _ | .flashJson id _ => id == romName
  | .command _ (.loadState document) =>
    match SaveFile.ofJson document with
    | .ok file => (file.state.image? romName).isSome
    | .error _ => false
  | _ => false

/-! ## Accesses -/

section Access

variable {config : Config} {bus : Bus} {rom : Option Bank}

/-- No address stands for a byte of ROM that can be changed. -/
theorem place_ne_ram_rom (config : Config) (address offset : UInt16) :
    place config address ≠ .ram romName offset := by
  unfold place
  split_ifs <;> simp [ramName, basicRamName, romName]

/-- Every machine has 256 bytes of ROM. -/
theorem exists_rom (h : bus.layout = (layout config).map Mapping.blank) :
    ∃ rom, bus.bank? romName = some rom ∧ rom.size = 256 := by
  have hfind : (layout config).findSome? (Mapping.bankNamed? romName) =
      some (.zeros romName 0xFF00 0x100 romName) := by
    unfold layout ramMapping? basicMapping?
    simp only
    split <;> split <;>
      simp [List.findSome?_cons, Mapping.bankNamed?, Component.bank?, Bank.zeros, Option.filter,
        romName, ramName, basicRamName]
  have hclear : (bus.bank? romName).map Bank.clear =
      some (Bank.zeros romName 0xFF00 0x100 romName).clear := by
    rw [Bus.bank?_eq, ← Mapping.findSome?_map_blank, ← Bus.layout, h, Mapping.findSome?_map_blank,
      hfind, Option.map_some]
  obtain ⟨rom, hrom, hzeros⟩ := Option.map_eq_some_iff.mp hclear
  refine ⟨rom, hrom, ?_⟩
  rw [← Mapping.size_clear, hzeros, Mapping.size_clear]
  simp [Bank.size, Bank.zeros]

/-- The mappings of a machine with some ROM. -/
structure WithRom (config : Config) (rom : Option Bank) (mappings : List Mapping) : Prop where
  layout : mappings.map Mapping.blank = (layout config).map Mapping.blank
  rom : mappings.findSome? (Mapping.bankNamed? romName) = rom

theorem withRom_iff : WithRom config rom bus.mappings ↔
    bus.layout = (Machine.layout config).map Mapping.blank ∧ bus.bank? romName = rom := by
  rw [Bus.bank?_eq]
  exact ⟨fun h => ⟨h.layout, h.rom⟩, fun h => ⟨h.1, h.2⟩⟩

/-- No access changes ROM. -/
theorem WithRom.after {encounter : Encounter Bus}
    (h : WithRom config rom encounter.memory.mappings) :
    WithRom config rom encounter.after.mappings := by
  obtain ⟨hlayout, hrom⟩ := withRom_iff.mp h
  refine withRom_iff.mpr ⟨(layout_after encounter).trans hlayout, ?_⟩
  obtain ⟨memory, ⟨address, value⟩ | ⟨address, value⟩⟩ := encounter
  · exact (memory.bank?_read address romName).trans hrom
  · refine (Bus.bank?_write_of_place_ne (fun offset => ?_) value).trans hrom
    rw [Bus.place_eq_of_layout hlayout, placeIn_layout]
    exact place_ne_ram_rom config address offset

/-- The service of the display does not change ROM. -/
theorem WithRom.serve (h : WithRom config rom bus.mappings) :
    WithRom config rom (bus.onPia servePia).2.mappings := by
  obtain ⟨hlayout, hrom⟩ := withRom_iff.mp h
  exact withRom_iff.mpr ⟨(bus.layout_onPia servePia servePia_source).trans hlayout,
    (bus.bank?_onPia servePia romName).trans hrom⟩

end Access

/-! ## Actions -/

variable {machine : Machine} {action : Action}

/-- An action on another bank does not change ROM. -/
theorem rom_onBank (machine : Machine) {id : String} (hid : (id == romName) = false)
    {act : Bank → Except FlashRefusal Nat × Bank × List Note}
    (hclear : ∀ bank, (act bank).2.1.clear = bank.clear) :
    (machine.onBank id act).2.bus.bank? romName = machine.bus.bank? romName := by
  have hbank := machine.bus.bank?_onBank id romName act hclear
  rw [if_neg (Ne.symm (beq_eq_false_iff_ne.mp hid))] at hbank
  rcases machine.onBank_cases id act with hacted | ⟨note, hnote⟩
  · rw [hacted]
    exact hbank
  · rw [hnote]
    rfl

theorem rom_pressKey (machine : Machine) (key : String) :
    (machine.pressKey key).bus.bank? romName = machine.bus.bank? romName := by
  unfold pressKey
  split
  · next code _ => exact machine.bus.bank?_onPia (fun pia => ((), Keyboard.send code pia)) romName
  · rfl

/-- A reset of the machine fetches the reset vector, and leaves memory as it is. -/
theorem rom_reset (machine : Machine) (now : Nat) :
    (machine.reset now).bus.bank? romName = machine.bus.bank? romName := by
  have hreset : (machine.reset now).bus.bank? romName =
      ((machine.bus.reset.read resetVector).2.read (resetVector + 1)).2.bank? romName := rfl
  rw [hreset, Bus.bank?_read, Bus.bank?_read, Bus.bank?_reset]

/-- A load changes ROM only if the document is accepted and has an image of it. -/
theorem rom_loadState (machine : Machine) (time : Time) {document : Json}
    (h : (Action.command time (.loadState document)).rewritesRom = false) :
    (machine.handle time (.loadState document)).2.bus.bank? romName =
      machine.bus.bank? romName := by
  simp only [Action.rewritesRom] at h
  cases hfile : SaveFile.ofJson document with
  | error reason =>
    rw [handle_loadState_of_error hfile]
    rfl
  | ok file =>
    rw [hfile] at h
    have hnone : file.state.image? romName = none := by simpa using h
    have himages : ∀ image ∈ file.state.banks, romName ≠ image.id := by
      intro image hmem heq
      have hfind := List.find?_eq_none.mp hnone image (List.mem_reverse.mpr hmem)
      simp [heq] at hfind
    obtain ⟨text, hloaded⟩ := handle_loadState_of_ok hfile machine time
    rw [hloaded]
    exact (Bus.bank?_onPia _ (fun pia => ((), pia.restore file.state.pia)) romName).trans
      (Bus.bank?_foldl_fillBank machine.bus himages)

/-- What a host does between machine steps changes ROM only if it puts bytes there. -/
theorem rom_act_of_not_executes (hrewrites : action.rewritesRom = false)
    (hexecutes : action.executes = false) :
    (machine.act action).bus.bank? romName = machine.bus.bank? romName := by
  cases action with
  | command time command =>
    cases command using Command.core_cases with
    | leaves command hleaves =>
      have hmappings : (machine.handle time command).2.bus.mappings = machine.bus.mappings :=
        congrArg Core.mappings (core_handle_of_leavesCore hleaves machine time)
      rw [act, Bus.bank?_eq, Bus.bank?_eq, hmappings]
    | keyDown key => exact rom_pressKey machine key
    | loadState document => exact rom_loadState machine time hrewrites
    | setRubout enabled => rfl
    | setProfiling enabled =>
      obtain ⟨counts, hswitched⟩ := machine.exists_handle_setProfiling time enabled
      rw [act, hswitched]
      rfl
    | reset => exact rom_reset machine time.micros
    | step => cases hexecutes
  | slice now => cases hexecutes
  | reset now => exact rom_reset machine now
  | flash id payload => exact rom_onBank machine hrewrites fun bank => bank.clear_flash payload
  | flashJson id payload =>
    exact rom_onBank machine hrewrites fun bank => bank.clear_flashJson payload
  | flashRom now payload => cases hrewrites

/-- ROM changes only if bytes are put there. -/
theorem rom_act {config : Config} (h : machine.core.Sound (layout config))
    (hrewrites : action.rewritesRom = false) :
    (machine.act action).bus.bank? romName = machine.bus.bank? romName := by
  have hrom : WithRom config (machine.bus.bank? romName) machine.bus.mappings :=
    withRom_iff.mpr ⟨h.layout, rfl⟩
  -- no access ends the chain, so it reaches the end of the action
  have hkept : Encounter.KeptUntil (fun _ => false)
      (WithRom config (machine.bus.bank? romName) ·.mappings)
      (WithRom config (machine.bus.bank? romName) (machine.act action).bus.mappings)
      (machine.encounters action) :=
    keptUntil_encounters (P := WithRom config (machine.bus.bank? romName))
      (fun _ hbefore _ => hbefore.after) (fun _ hbefore => hbefore.serve)
      (fun hexecutes _ => withRom_iff.mpr
        ⟨(sound_act (distinct_layout config) h action).layout,
          rom_act_of_not_executes hrewrites hexecutes⟩) hrom
  exact (withRom_iff.mp (hkept.reached fun _ _ => rfl)).2

/-- Throughout a session ROM changes only when bytes are put there. -/
theorem rom_run {config : Config} {actions : List Action}
    (h : machine.core.Sound (layout config))
    (hrewrites : ∀ action ∈ actions, action.rewritesRom = false) :
    (machine.run actions).bus.bank? romName = machine.bus.bank? romName := by
  induction actions generalizing machine with
  | nil => rfl
  | cons action rest ih =>
    obtain ⟨hfirst, hrest⟩ := List.forall_mem_cons.mp hrewrites
    rw [run_cons, ih (sound_act (distinct_layout config) h action) hrest, rom_act h hfirst]

/-! ## Sessions -/

/-- A write to an address of ROM leaves nothing but a warning. -/
theorem write_rom {config : Config} {bus : Bus}
    (h : bus.layout = (layout config).map Mapping.blank) {address : UInt16} {id : String}
    {offset : UInt16} (hplace : place config address = .rom id offset) (value : UInt8) :
    ∃ note, note.level = .warn ∧ note.Reports .readOnlyViolation ∧
      bus.write address value =
        { bus with lastWrite := some ⟨address, value⟩, log := bus.log.add note } := by
  have hholds := holds_of_layout h address
  rw [hplace] at hholds
  obtain ⟨bank, byte, -, -, -, hwrite⟩ := hholds
  exact ⟨bank.rejectWrite offset value.toNat, rfl, ⟨_, _, rfl⟩, hwrite value⟩

/-- No program can alter ROM. In every state that a session leads to there are 256 bytes of
ROM, which stay as they are until an action puts other bytes there. A write of a program
changes at most the byte that its address stands for, and a write to an address of ROM
changes no bank and not the adapter: it is the last write of the bus from then on, and the log
has a warning about it. -/
theorem rom_protected {config : Config} {now : Nat} {fresh : Machine}
    (hbuilt : build? config now = .ok fresh) (earlier actions : List Action) :
    ((∀ action ∈ actions, action.rewritesRom = false) →
      ∃ rom, rom.size = 256 ∧ (fresh.run earlier).bus.bank? romName = some rom ∧
        ((fresh.run earlier).run actions).bus.bank? romName = some rom) ∧
    ∀ encounter ∈ (fresh.run earlier).sessionEncounters actions, ∀ address value,
      encounter.access = .write address value →
        (∀ id offset, encounter.after.byte? id offset =
          if place config address = .ram id offset then some value
          else encounter.memory.byte? id offset) ∧
        ∀ id offset, place config address = .rom id offset →
          ∃ note, note.level = .warn ∧ note.Reports .readOnlyViolation ∧
            encounter.after = { encounter.memory with
              lastWrite := some ⟨address, value⟩
              log := encounter.memory.log.add note } := by
  have hsound := sound_run hbuilt earlier
  constructor
  · -- the bank is found in every state, since it is part of the layout
    intro hrewrites
    have hlayout : (fresh.run earlier).bus.layout = (layout config).map Mapping.blank :=
      hsound.layout
    obtain ⟨rom, hrom, hsize⟩ := exists_rom hlayout
    exact ⟨rom, hsize, hrom, (rom_run hsound hrewrites).trans hrom⟩
  · rintro ⟨memory, access⟩ hmem address value rfl
    -- the access belongs to some action, which began in a sound state
    obtain ⟨before, action, after, -, haction⟩ := exists_of_mem_sessionEncounters hmem
    rw [← run_append] at haction
    have hlayout : memory.layout = (layout config).map Mapping.blank :=
      layout_of_mem_encounters (distinct_layout config) (sound_run hbuilt _) haction
    refine ⟨fun id offset => ?_, fun id offset hplace => write_rom hlayout hplace value⟩
    have hbyte := Bus.byte?_write (wellFormed_of_layout hlayout) address value id offset
    rwa [Bus.place_eq_of_layout hlayout, placeIn_layout] at hbyte

/-- A program that stores a byte in ROM. -/
theorem rom_protected_store :
    ∃ fresh, build? { batch := 2 } 0 = .ok fresh ∧
      let machine := fresh.run [.flash "ram" [0x00, 0x00, 0xA9, 0x12, 0x8D, 0x00, 0xFF],
        .command ⟨0, 0⟩ .start]
      (∃ rom, machine.bus.bank? romName = some rom ∧
        (machine.run [.slice 1]).bus.bank? romName = some rom) ∧
      ∃ encounter ∈ machine.sessionEncounters [.slice 1],
        encounter.access = .write 0xFF00 0x12 ∧
        ∃ note, encounter.after.log = encounter.memory.log.add note ∧
          note.Reports .readOnlyViolation := by
  obtain ⟨fresh, hbuilt⟩ := exists_build? { batch := 2 } 0
  have hrun : ((build? { batch := 2 } 0).toOption.map fun fresh =>
      ((fresh.run [.flash "ram" [0x00, 0x00, 0xA9, 0x12, 0x8D, 0x00, 0xFF],
        .command ⟨0, 0⟩ .start]).sessionEncounters [.slice 1]).any
          (·.access == .write 0xFF00 0x12)) = some true := by
    decide +kernel
  rw [hbuilt] at hrun
  obtain ⟨encounter, hmem, haccess⟩ := List.any_eq_true.mp (Option.some.inj hrun)
  obtain ⟨hrom, hwrites⟩ := rom_protected hbuilt
    [.flash "ram" [0x00, 0x00, 0xA9, 0x12, 0x8D, 0x00, 0xFF], .command ⟨0, 0⟩ .start] [.slice 1]
  obtain ⟨rom, -, hbefore, hafter⟩ := hrom (by decide)
  have hwrite := beq_iff_eq.mp haccess
  obtain ⟨-, hviolation⟩ := hwrites encounter hmem 0xFF00 0x12 hwrite
  obtain ⟨note, -, hnote, hwarned⟩ := hviolation romName 0 (by decide)
  exact ⟨fresh, hbuilt, ⟨rom, hbefore, hafter⟩, encounter, hmem, hwrite, note,
    by rw [hwarned], hnote⟩

end AppleOne.Machine
