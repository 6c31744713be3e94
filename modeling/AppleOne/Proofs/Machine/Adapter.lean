import AppleOne.Proofs.Machine.MemoryMap

/-!
# The adapter of a machine

Every machine has an adapter, at four addresses, and programs reach it there only. A
property of the adapter that the accesses to these addresses keep is kept by every access.

## Main definitions

* `Machine.Attached`: mappings with the layout of a machine and an adapter with a property.

## Main results

* `Machine.pia?_read_of_layout`, `Machine.pia?_write_of_layout`: what accesses do to the
  adapter.
* `Machine.Attached.read`, `Machine.Attached.write`, `Machine.Attached.onPia`: what becomes of
  a property.
-/

namespace AppleOne

/-- Acting on a bank leaves the adapter. -/
theorem Bus.adapters_onBank {α : Type} (bus : Bus) (id : String)
    (act : Bank → α × Bank × List Note) :
    (bus.onBank id act).2.mappings.map Mapping.adapter? = bus.mappings.map Mapping.adapter? := by
  rw [mappings_onBank]
  refine map_onFirst Mapping.adapter? fun mapping _ => ?_
  obtain ⟨start, last, name, component⟩ := mapping
  cases component <;> rfl

namespace Machine

section Access

variable {config : Config} {bus : Bus} {address : UInt16}

/-- What is said of the registers of the adapter is said of four addresses. -/
theorem match_place {α : Type} (onRegister : UInt16 → α) (otherwise : α) :
    (match place config address with
      | .register offset => onRegister offset
      | _ => otherwise) =
      if 0xD010 ≤ address ∧ address ≤ 0xD013 then onRegister (address - 0xD010)
      else otherwise := by
  split_ifs with haddress
  · rw [place_eq_register haddress]
  · split
    · next offset hplace => exact absurd hplace (place_ne_register haddress offset)
    · rfl

/-- The adapter takes part in the reads of its own four addresses. -/
theorem pia?_read_of_layout (h : bus.layout = (layout config).map Mapping.blank)
    (address : UInt16) :
    (bus.read address).2.pia? =
      if 0xD010 ≤ address ∧ address ≤ 0xD013 then
        bus.pia?.map fun adapter => (adapter.read (address - 0xD010)).2
      else bus.pia? := by
  rw [Bus.pia?_read (wellFormed_of_layout h).toDistinct, Bus.place_eq_of_layout h, placeIn_layout]
  exact match_place _ _

/-- The adapter takes part in the writes to its own four addresses. -/
theorem pia?_write_of_layout (h : bus.layout = (layout config).map Mapping.blank)
    (address : UInt16) (value : UInt8) :
    (bus.write address value).pia? =
      if 0xD010 ≤ address ∧ address ≤ 0xD013 then
        bus.pia?.map (·.write (address - 0xD010) value)
      else bus.pia? := by
  rw [Bus.pia?_write (wellFormed_of_layout h).toDistinct, Bus.place_eq_of_layout h,
    placeIn_layout]
  exact match_place _ _

end Access

/-- The registers of the adapter have four addresses. -/
theorem register_cases {address : UInt16} (h : 0xD010 ≤ address ∧ address ≤ 0xD013) :
    address = 0xD010 ∨ address = 0xD011 ∨ address = 0xD012 ∨ address = 0xD013 := by
  have hfirst : 0xD010 ≤ address.toNat := h.1
  have hlast : address.toNat ≤ 0xD013 := h.2
  simp only [← UInt16.toNat_inj, UInt16.reduceToNat]
  omega

/-! ## Properties of the adapter -/

/-- The mappings of a machine, whose adapter has a property. -/
structure Attached (config : Config) (Q : Pia → Prop) (mappings : List Mapping) : Prop where
  layout : mappings.map Mapping.blank = (layout config).map Mapping.blank
  adapter : ∃ adapter, mappings.findSome? Mapping.adapter? = some adapter ∧ Q adapter

variable {config : Config} {Q R : Pia → Prop} {mappings : List Mapping} {bus : Bus}

/-- A machine has an adapter. -/
theorem attached_of_layout (h : mappings.map Mapping.blank = (layout config).map Mapping.blank)
    (hadapter : ∀ adapter, mappings.findSome? Mapping.adapter? = some adapter → Q adapter) :
    Attached config Q mappings := by
  -- a bus with these mappings has an adapter at its first address
  have hbus : (⟨mappings, none, none, .empty 0⟩ : Bus).layout =
      (layout config).map Mapping.blank := h
  have hholds := holds_of_layout hbus 0xD010
  rw [place_eq_register (by decide)] at hholds
  obtain ⟨adapter, hpia, -⟩ := hholds
  exact ⟨h, adapter, hpia, hadapter adapter hpia⟩

namespace Attached

/-- A property of the adapter survives what leaves the layout and the adapter. -/
theorem congr {others : List Mapping} (h : Attached config Q mappings)
    (hblank : others.map Mapping.blank = mappings.map Mapping.blank)
    (hadapter : others.map Mapping.adapter? = mappings.map Mapping.adapter?) :
    Attached config Q others := by
  obtain ⟨adapter, hfound, hQ⟩ := h.adapter
  exact ⟨hblank.trans h.layout, adapter, (Bus.findSome?_adapter?_congr hadapter).trans hfound, hQ⟩

/-- The property is one of the adapter of the machine. -/
theorem pia {machine : Machine} (h : Attached config Q machine.core.mappings) : Q machine.pia := by
  obtain ⟨adapter, hadapter, hQ⟩ := h.adapter
  have hpia : machine.bus.pia? = some adapter := hadapter
  rwa [Machine.pia, hpia]

/-- What is kept by an access that goes to the adapter, is kept by every access that changes
the adapter only there. -/
theorem access {other : Bus} (h : Attached config Q bus.mappings)
    (hlayout : other.layout = bus.layout) {address : UInt16} (change : Pia → Pia)
    (hpia : other.pia? =
      if 0xD010 ≤ address ∧ address ≤ 0xD013 then bus.pia?.map change else bus.pia?)
    (hchange : 0xD010 ≤ address ∧ address ≤ 0xD013 → ∀ adapter, bus.pia? = some adapter →
      Q adapter → Q (change adapter)) :
    Attached config Q other.mappings := by
  obtain ⟨adapter, hadapter, hQ⟩ := h.adapter
  have hbefore : bus.pia? = some adapter := hadapter
  refine ⟨hlayout.trans h.layout, ?_⟩
  split_ifs at hpia with haddress
  · rw [hbefore, Option.map_some] at hpia
    exact ⟨change adapter, hpia, hchange haddress adapter hbefore hQ⟩
  · exact ⟨adapter, hpia.trans hbefore, hQ⟩

/-- What a read of a register keeps, every read keeps. -/
theorem read (h : Attached config Q bus.mappings) (address : UInt16)
    (hread : 0xD010 ≤ address ∧ address ≤ 0xD013 → ∀ adapter, bus.pia? = some adapter →
      Q adapter → Q (adapter.read (address - 0xD010)).2) :
    Attached config Q (bus.read address).2.mappings :=
  h.access (bus.layout_read address) (fun adapter => (adapter.read (address - 0xD010)).2)
    (pia?_read_of_layout h.layout address) hread

/-- What a write to a register keeps, every write keeps. -/
theorem write (h : Attached config Q bus.mappings) (address : UInt16) (value : UInt8)
    (hwrite : 0xD010 ≤ address ∧ address ≤ 0xD013 → ∀ adapter, Q adapter →
      Q (adapter.write (address - 0xD010) value)) :
    Attached config Q (bus.write address value).mappings :=
  h.access (bus.layout_write address value) (·.write (address - 0xD010) value)
    (pia?_write_of_layout h.layout address value) fun haddress adapter _ => hwrite haddress adapter

/-- An action on the adapter gives the machine an adapter with another property. -/
theorem onPia {α : Type} (h : Attached config Q bus.mappings) (act : Pia → α × Pia)
    (hsource : ∀ adapter, (act adapter).2.source = adapter.source)
    (hact : ∀ adapter, Q adapter → R (act adapter).2) :
    Attached config R (bus.onPia act).2.mappings := by
  obtain ⟨adapter, hadapter, hQ⟩ := h.adapter
  refine ⟨(bus.layout_onPia act hsource).trans h.layout, (act adapter).2, ?_, hact adapter hQ⟩
  have hpia : bus.pia? = some adapter := hadapter
  exact (bus.pia?_onPia act).2.trans (hpia ▸ rfl)

/-- A property of the adapter survives an action on a bank. -/
theorem onBank {machine : Machine} (h : Attached config Q machine.core.mappings) (id : String)
    {act : Bank → Except FlashRefusal Nat × Bank × List Note}
    (hclear : ∀ bank, (act bank).2.1.clear = bank.clear) :
    Attached config Q (machine.onBank id act).2.core.mappings := by
  have hlayout := machine.bus.layout_onBank id act hclear
  have hadapters := machine.bus.adapters_onBank id act
  rcases machine.onBank_cases id act with hbank | ⟨note, hnote⟩
  · rw [hbank]
    exact h.congr hlayout hadapters
  · rw [hnote]
    exact h

/-- The reset line puts the adapter into its initial state, and the reset vector lies in
ROM. -/
theorem reset {machine : Machine} (h : Attached config Q machine.core.mappings) (now : Nat)
    (hinitial : ∀ source, R (.initial source)) :
    Attached config R (machine.reset now).core.mappings := by
  have hreset : Attached config R machine.bus.reset.mappings := by
    refine attached_of_layout ((Bus.layout_reset machine.bus).trans h.layout)
      fun adapter hadapter => ?_
    obtain ⟨changed, hmem, hchanged⟩ := List.exists_of_findSome?_eq_some hadapter
    simp only [Bus.reset, Bus.resetMappings_eq] at hmem
    obtain ⟨⟨start, last, name, component⟩, -, rfl⟩ := List.mem_map.mp hmem
    cases component with
    | ram _ | rom _ => cases hchanged
    | pia other =>
      rw [← Option.some.inj hchanged]
      exact hinitial other.source
  -- the vector is fetched after that, from above the adapter
  have hvector (address : UInt16) (hle : 0xFFFC ≤ address) (bus : Bus)
      (hbus : Attached config R bus.mappings) : Attached config R (bus.read address).2.mappings :=
    hbus.read address fun haddress => by
      have hlow : address.toNat ≤ 0xD013 := haddress.2
      have hhigh : 0xFFFC ≤ address.toNat := hle
      omega
  exact hvector (Cpu.resetVector + 1) (by decide) _ (hvector Cpu.resetVector (by decide) _ hreset)

/-- A restored machine has an adapter with the ports that were saved. -/
theorem restore {machine : Machine} (h : Attached config Q machine.core.mappings) (now : Nat)
    (snapshot : Snapshot) (hports : ∀ adapter : Pia, R (adapter.restore snapshot.pia)) :
    Attached config R (machine.restore now snapshot).core.mappings := by
  have hfilled : Attached config (fun _ => True)
      (snapshot.banks.foldl fillBank machine.bus).mappings :=
    attached_of_layout ((Bus.layout_foldl_fillBank machine.bus snapshot.banks).trans h.layout)
      fun _ _ => trivial
  exact hfilled.onPia (fun pia => ((), pia.restore snapshot.pia)) (fun _ => rfl)
    fun adapter _ => hports adapter

end Attached

end Machine

end AppleOne
