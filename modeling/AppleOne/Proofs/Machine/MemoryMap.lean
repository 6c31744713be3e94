import AppleOne.Proofs.Machine.Encounters

/-!
# The memory map

The configuration of a machine decides once and for all what every address stands for:
RAM from zero up, as much as was asked for and fits below the adapter; the registers of the
adapter; RAM for BASIC, if it was asked for; ROM at the top; and nothing elsewhere. The
mappings are well formed when the machine is built and stay so whatever a host does with
it.

## Main definitions

* `Machine.place`: what an address stands for, by the configuration.

## Main results

* `Machine.wellFormed_layout`, `Machine.placeIn_layout`: the mappings of a new machine.
* `Machine.memory_map_run`: the memory map of every machine in every state.
-/

namespace AppleOne.Machine

open Cpu

/-- What an address of a machine stands for. -/
def place (config : Config) (address : UInt16) : Place :=
  if address.toNat < min config.ramSize.toNat 0xD000 then .ram ramName address
  else if 0xD010 ≤ address ∧ address ≤ 0xD013 then .register (address - 0xD010)
  else if config.basic ∧ 0xE000 ≤ address ∧ address ≤ 0xEFFF then
    .ram basicRamName (address - 0xE000)
  else if 0xFF00 ≤ address then .rom romName (address - 0xFF00)
  else .nothing

variable {config : Config} {address : UInt16}

theorem place_eq_register (h : 0xD010 ≤ address ∧ address ≤ 0xD013) :
    place config address = .register (address - 0xD010) := by
  have hstart : 0xD010 ≤ address.toNat := h.1
  have hnot : ¬ address.toNat < min config.ramSize.toNat 0xD000 := by omega
  rw [place, if_neg hnot, if_pos h]

theorem place_ne_register (h : ¬ (0xD010 ≤ address ∧ address ≤ 0xD013)) (offset : UInt16) :
    place config address ≠ .register offset := by
  unfold place
  rw [if_neg h]
  split_ifs <;> exact Place.noConfusion

/-! ## The mappings of a new machine -/

/-- There is no RAM, or there is RAM that ends below the adapter. -/
theorem ramMapping?_cases (config : Config) :
    (min config.ramSize.toNat 0xD000 = 0 ∧ ramMapping? config = none) ∨
    ∃ last : UInt16, last.toNat + 1 = min config.ramSize.toNat 0xD000 ∧
      ramMapping? config =
        some ⟨0, last, ramName, .ram (.zeros ramName 0 (last.toNat + 1) ramName)⟩ := by
  have hmin : (min config.ramSize Config.maxRamSize).toNat = min config.ramSize.toNat 0xD000 := by
    have hsmaller : min config.ramSize Config.maxRamSize =
        if config.ramSize ≤ Config.maxRamSize then config.ramSize else Config.maxRamSize := rfl
    rw [hsmaller, min_def, apply_ite UInt32.toNat]
    rfl
  unfold ramMapping?
  simp only
  split
  · next hzero =>
    left
    rw [← hmin, hzero]
    exact ⟨rfl, rfl⟩
  · next hne =>
    -- the size is at least one, so its predecessor is the last address
    have hpos : (min config.ramSize Config.maxRamSize).toNat ≠ 0 := fun h =>
      hne (UInt32.toNat_inj.mp h)
    have hone : (1 : UInt32) ≤ min config.ramSize Config.maxRamSize := by
      rw [UInt32.le_iff_toNat_le]
      exact Nat.one_le_iff_ne_zero.mpr hpos
    have hlast : (min config.ramSize Config.maxRamSize - 1).toUInt16.toNat + 1 =
        (min config.ramSize Config.maxRamSize).toNat := by
      rw [UInt32.toNat_toUInt16, UInt32.toNat_sub_of_le _ _ hone, Nat.mod_eq_of_lt (by omega)]
      exact Nat.succ_pred_eq_of_ne_zero hpos
    right
    exact ⟨_, hlast.trans hmin, by rw [hlast]⟩

theorem placeIn_layout (config : Config) (address : UInt16) :
    Mapping.placeIn (layout config) address = place config address := by
  have htop : address ≤ 0xFFFF := UInt16.le_iff_toNat_le.mpr (Nat.le_of_lt_succ address.toNat_lt)
  -- the ranges are tried in the order of the memory map
  obtain ⟨hzero, hnone⟩ | ⟨last, hlast, hsome⟩ := ramMapping?_cases config
  · unfold layout place basicMapping?
    rw [hnone, hzero]
    cases config.basic <;> simp [Mapping.contains, Mapping.place, Bank.zeros, htop]
  · have hram : address ≤ last ↔ address.toNat < last.toNat + 1 :=
      UInt16.le_iff_toNat_le.trans Nat.lt_succ_iff.symm
    unfold layout place basicMapping?
    rw [hsome, ← hlast]
    cases config.basic <;> simp [Mapping.contains, Mapping.place, Bank.zeros, htop, hram]

/-- Every mapping ends before the next one begins. -/
theorem ascending_layout (config : Config) :
    (layout config).Pairwise fun first second => first.last < second.start := by
  unfold layout basicMapping?
  obtain ⟨-, hnone⟩ | ⟨last, hlast, hsome⟩ := ramMapping?_cases config
  · rw [hnone]
    cases config.basic <;> simp
  · have hbelow {start : UInt16} (h : 0xD000 ≤ start.toNat) : last < start :=
      UInt16.lt_iff_toNat_lt.mpr (by omega)
    rw [hsome]
    cases config.basic <;> simp [hbelow]

/-- No two mappings of a new machine get in each other's way, and all banks fill their
ranges. -/
theorem wellFormed_layout (config : Config) : Mapping.WellFormed (layout config) where
  toDistinct := distinct_layout config
  disjoint := (ascending_layout config).imp Mapping.disjoint_of_lt
  sizes := by
    unfold layout basicMapping?
    obtain ⟨-, hnone⟩ | ⟨last, hlast, hsome⟩ := ramMapping?_cases config
    · rw [hnone]
      cases config.basic <;> simp [Component.bank?, Bank.zeros, Bank.size, Mapping.width]
    · rw [hsome]
      cases config.basic <;> simp [Component.bank?, Bank.zeros, Bank.size, Mapping.width]

/-! ## Sessions -/

variable {bus : Bus}

/-- A bus with the layout of a machine has well-formed mappings. -/
theorem wellFormed_of_layout (h : bus.layout = (layout config).map Mapping.blank) :
    Mapping.WellFormed bus.mappings :=
  Mapping.wellFormed_of_blank h.symm (wellFormed_layout config)

/-- On a bus with the layout of a machine accesses follow the memory map. -/
theorem holds_of_layout (h : bus.layout = (layout config).map Mapping.blank) (address : UInt16) :
    bus.Holds address (place config address) := by
  rw [← placeIn_layout, ← Bus.place_eq_of_layout h]
  exact Bus.holds_place (wellFormed_of_layout h) address

/-- An access that meets the layout of a machine reports at most that it went to ROM. -/
theorem log_after (encounter : Encounter Bus)
    (h : encounter.memory.layout = (layout config).map Mapping.blank) :
    ∃ note : Option Note, encounter.after.log = encounter.memory.log.addAll note.toList ∧
      ∀ reported ∈ note, ¬ reported.Reports .outOfBounds := by
  obtain ⟨memory, ⟨address, value⟩ | ⟨address, value⟩⟩ := encounter
  · exact ⟨none, Bus.log_read (wellFormed_of_layout h) address, by simp⟩
  · exact Bus.log_write (wellFormed_of_layout h) address value

/-- Every configuration yields a machine. Whatever a session does with it, its mappings stay
well formed and every address stands for what the memory map says, and no access of a
program, which meets the same memory map, reports to have missed its bank. -/
theorem memory_map_run (config : Config) (now : Nat) :
    ∃ fresh, build? config now = .ok fresh ∧ ∀ actions,
      Mapping.WellFormed (fresh.run actions).bus.mappings ∧
      (∀ address, (fresh.run actions).bus.Holds address (place config address)) ∧
      ∀ encounter ∈ fresh.sessionEncounters actions,
        (∀ address, encounter.memory.Holds address (place config address)) ∧
        ∃ note : Option Note, encounter.after.log = encounter.memory.log.addAll note.toList ∧
          ∀ reported ∈ note, ¬ reported.Reports .outOfBounds := by
  obtain ⟨fresh, hbuilt⟩ := exists_build? config now
  refine ⟨fresh, hbuilt, fun actions => ?_⟩
  -- the layout is that of the new machine, whatever was loaded, flashed or reset
  have hlayout : (fresh.run actions).bus.layout = (layout config).map Mapping.blank :=
    (sound_run hbuilt actions).layout
  refine ⟨wellFormed_of_layout hlayout, holds_of_layout hlayout, ?_⟩
  intro encounter hmem
  -- the access belongs to some action, which began in a sound state
  obtain ⟨earlier, action, later, -, haction⟩ := exists_of_mem_sessionEncounters hmem
  have hmet := layout_of_mem_encounters (distinct_layout config) (sound_run hbuilt earlier) haction
  exact ⟨holds_of_layout hmet, log_after encounter hmet⟩

end AppleOne.Machine
