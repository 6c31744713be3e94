import AppleOne.Proofs.Bus.Decode

/-!
# The banks of a bus

A bank is found by its id, and whatever is done to other parts of the bus leaves it as it is.
A write reaches one byte at most, the one that its address stands for; all other bytes of all
banks stay.

## Main definitions

* `Mapping.bankNamed?`: the bank with some id in a mapping.
* `Bus.byte?`: a byte of a bank.

## Main results

* `Bus.banks_congr`, `Bus.bank?_congr`: which banks there are, and which is found, depends on
  the banks in the mappings.
* `Bus.banks_read`, `Bus.banks_onPia`, `Bus.banks_reset`, `Bus.bank?_write_of_place_ne`: what
  leaves a bank.
* `Bus.bank?_onBank`: acting on a bank changes that bank alone.
* `Bus.byte?_write`: a write changes at most the byte that its address stands for.
-/

namespace AppleOne

/-- The bank in a mapping, if it has the id. Searching a bus for a bank is searching its
mappings for this. -/
def Mapping.bankNamed? (id : String) (mapping : Mapping) : Option Bank :=
  mapping.component.bank?.filter (·.id == id)

/-- The ids of the banks tell which mapping holds which. -/
theorem Mapping.isSome_bankNamed? (id : String) (mapping : Mapping) :
    (mapping.bankNamed? id).isSome = Bus.holdsBank id mapping := by
  unfold bankNamed? Bus.holdsBank
  cases mapping.component.bank? with
  | none => rfl
  | some bank => cases h : bank.id == id <;> simp [Option.filter, h]

/-- A mapping holds one bank at most. -/
theorem Mapping.bankNamed?_eq_none {id other : String} {mapping : Mapping} {bank : Bank}
    (h : mapping.bankNamed? id = some bank) (hne : other ≠ id) :
    mapping.bankNamed? other = none := by
  obtain ⟨hbank, hid⟩ := Option.filter_eq_some_iff.mp h
  have hfirst : bank.id = id := by simpa using hid
  simp [bankNamed?, hbank, Option.filter, hfirst, hne.symm]

/-- A bank that is changed in its place keeps being found if it keeps its id. -/
theorem Mapping.bankNamed?_mapBank {change : Bank → Bank} (hid : ∀ bank, (change bank).id = bank.id)
    (id : String) (mapping : Mapping) :
    (mapping.onComponent fun _ component => component.mapBank change).bankNamed? id =
      (mapping.bankNamed? id).map change := by
  obtain ⟨start, last, name, component⟩ := mapping
  cases component with
  | pia _ => rfl
  | ram bank | rom bank =>
    cases h : bank.id == id <;>
      simp [bankNamed?, onComponent, Component.mapBank, Component.bank?, Option.filter, hid, h]

theorem Mapping.bankNamed?_blank (id : String) (mapping : Mapping) :
    mapping.blank.bankNamed? id = (mapping.bankNamed? id).map Bank.clear := by
  have hclear : ∀ bank : Bank, bank.clear.id = bank.id := fun _ => rfl
  rw [← bankNamed?_mapBank hclear]
  obtain ⟨start, last, name, component⟩ := mapping
  cases component <;> rfl

/-- Which banks there are, and how long they are, is a matter of the layout. -/
theorem Mapping.findSome?_map_blank (id : String) (mappings : List Mapping) :
    (mappings.map blank).findSome? (bankNamed? id) =
      (mappings.findSome? (bankNamed? id)).map Bank.clear := by
  have hblank : bankNamed? id ∘ blank = fun mapping => (mapping.bankNamed? id).map Bank.clear :=
    funext (bankNamed?_blank id)
  rw [List.findSome?_map, hblank, List.map_findSome?]
  rfl

theorem Bank.id_store (bank : Bank) (offset : UInt16) (value : UInt8) :
    (bank.store offset value).1.id = bank.id := by
  unfold store
  split <;> rfl

namespace Bus

/-- The byte at an offset of the bank with an id. -/
def byte? (bus : Bus) (id : String) (offset : UInt16) : Option UInt8 :=
  (bus.bank? id).bind fun bank => bank.data[offset.toNat]?

variable {bus : Bus} {id : String} {address : UInt16}

theorem bank?_eq (bus : Bus) (id : String) :
    bus.bank? id = bus.mappings.findSome? (Mapping.bankNamed? id) := by
  unfold bank? banks
  induction bus.mappings with
  | nil => rfl
  | cons mapping rest ih =>
    rw [List.findSome?_cons]
    unfold Mapping.bankNamed? at ih ⊢
    cases hbank : mapping.component.bank? with
    | none =>
      simp only [List.filterMap_cons, hbank, Option.filter]
      exact ih
    | some bank =>
      cases hid : bank.id == id with
      | true => simp [hbank, Option.filter, hid]
      | false =>
        simp only [List.filterMap_cons, hbank, List.find?_cons, hid, Option.filter,
          Bool.false_eq_true, if_false]
        exact ih

/-- Which bank is found depends on the banks in the mappings alone. -/
theorem bank?_congr {first second : Bus}
    (h : first.mappings.map (Mapping.bankNamed? id) = second.mappings.map (Mapping.bankNamed? id)) :
    first.bank? id = second.bank? id := by
  have hfind (mappings : List Mapping) : mappings.findSome? (Mapping.bankNamed? id) =
      (mappings.map (Mapping.bankNamed? id)).findSome? (fun bank => bank) := by
    rw [List.findSome?_map]
    rfl
  rw [bank?_eq, bank?_eq, hfind, hfind, h]

/-- Which banks there are depends on the banks in the mappings alone. -/
theorem banks_congr {first second : Bus}
    (h : first.mappings.map (·.component.bank?) = second.mappings.map (·.component.bank?)) :
    first.banks = second.banks := by
  have hfilter (mappings : List Mapping) : mappings.filterMap (·.component.bank?) =
      (mappings.map (·.component.bank?)).filterMap fun bank => bank := by
    rw [List.filterMap_map]
    rfl
  rw [banks, banks, hfilter, hfilter, h]

/-! ## What leaves a bank -/

/-- A read changes no bank. -/
theorem banks_read (bus : Bus) (address : UInt16) : (bus.read address).2.banks = bus.banks := by
  refine banks_congr ?_
  simp only [read, mappings_reportAny]
  refine map_onFirst (·.component.bank?) fun mapping _ => ?_
  obtain ⟨start, last, name, component⟩ := mapping
  cases component <;> rfl

/-- An action on the adapter changes no bank. -/
theorem banks_onPia {α : Type} (bus : Bus) (act : Pia → α × Pia) :
    (bus.onPia act).2.banks = bus.banks := by
  refine banks_congr (map_onFirst (·.component.bank?) fun mapping _ => ?_)
  obtain ⟨start, last, name, component⟩ := mapping
  cases component <;> rfl

/-- The reset line changes no bank. -/
theorem banks_reset (bus : Bus) : bus.reset.banks = bus.banks := by
  refine banks_congr ?_
  simp only [reset, resetMappings_eq, List.map_map]
  refine List.map_congr_left fun mapping _ => ?_
  obtain ⟨start, last, name, component⟩ := mapping
  cases component <;> rfl

theorem bank?_read (bus : Bus) (address : UInt16) (id : String) :
    (bus.read address).2.bank? id = bus.bank? id :=
  congrArg (List.find? fun bank : Bank => bank.id == id) (bus.banks_read address)

theorem bank?_onPia {α : Type} (bus : Bus) (act : Pia → α × Pia) (id : String) :
    (bus.onPia act).2.bank? id = bus.bank? id :=
  congrArg (List.find? fun bank : Bank => bank.id == id) (bus.banks_onPia act)

theorem bank?_reset (bus : Bus) (id : String) : bus.reset.bank? id = bus.bank? id :=
  congrArg (List.find? fun bank : Bank => bank.id == id) bus.banks_reset

/-- A write changes no bank but the one that its address stands for. -/
theorem bank?_write_of_place_ne (h : ∀ offset, bus.place address ≠ .ram id offset)
    (value : UInt8) : (bus.write address value).bank? id = bus.bank? id := by
  refine bank?_congr ?_
  simp only [write, mappings_reportAny]
  refine map_onFirst (Mapping.bankNamed? id) fun mapping hserving => ?_
  have hplace : bus.place address = mapping.place address := place_of_serving hserving
  obtain ⟨start, last, name, component⟩ := mapping
  cases component with
  | rom _ | pia _ => rfl
  | ram bank =>
    -- the bank that is written to has another id
    have hne : (bank.id == id) = false := by
      refine beq_eq_false_iff_ne.mpr fun heq => h (address - start) ?_
      rw [hplace, ← heq]
      rfl
    have hstored : ((bank.store (address - start) value).1.id == id) = false := by
      rw [Bank.id_store, hne]
    simp [Mapping.bankNamed?, Mapping.onComponent, Component.write, Component.bank?,
      Option.filter, hne, hstored]

/-- An action on the bank with an id that leaves everything but its bytes changes the first one
that has it, and no other. -/
theorem bank?_onBank {α : Type} (bus : Bus) (id other : String)
    (act : Bank → α × Bank × List Note) (h : ∀ bank, (act bank).2.1.clear = bank.clear) :
    (bus.onBank id act).2.bank? other =
      if other = id then (bus.bank? id).map fun bank => (act bank).2.1 else bus.bank? other := by
  have hid (bank : Bank) : (act bank).2.1.id = bank.id := (congrArg Bank.id (h bank) :)
  rw [bank?_eq, bank?_eq, bank?_eq, mappings_onBank]
  -- banks with equal ids may lie further back, so the induction keeps to the first one
  induction bus.mappings with
  | nil => simp [onFirst]
  | cons mapping rest ih =>
    have hholds := mapping.isSome_bankNamed? id
    cases hqualifies : holdsBank id mapping with
    | true =>
      -- the bank that is acted on; it has this id before and after
      rw [hqualifies] at hholds
      obtain ⟨bank, hbank⟩ := Option.isSome_iff_exists.mp hholds
      rw [onFirst_cons_of_qualifies _ hqualifies, List.findSome?_cons, List.findSome?_cons,
        List.findSome?_cons, Mapping.bankNamed?_mapBank hid, hbank]
      split_ifs with hother
      · rw [hother, hbank]
        rfl
      · rw [Mapping.bankNamed?_eq_none hbank hother]
        rfl
    | false =>
      have hnone : mapping.bankNamed? id = none := by simpa [hqualifies] using hholds
      rw [onFirst_cons_of_not_qualifies _ hqualifies, List.findSome?_cons, List.findSome?_cons,
        List.findSome?_cons, hnone, ih]
      split_ifs with hother
      · rw [hother, hnone]
      · rfl

/-! ## Writes -/

/-- A write changes at most one byte of one bank, the one that its address stands for. -/
theorem byte?_write (h : Mapping.WellFormed bus.mappings) (address : UInt16) (value : UInt8)
    (id : String) (offset : UInt16) :
    (bus.write address value).byte? id offset =
      if bus.place address = .ram id offset then some value else bus.byte? id offset := by
  by_cases hplace : ∃ written, bus.place address = .ram id written
  · -- the address stands for a byte of this bank, at some offset
    obtain ⟨written, hplace⟩ := hplace
    have hholds := holds_place h address
    rw [hplace] at hholds
    obtain ⟨bank, byte, hbank, hbyte, -, hwrite⟩ := hholds
    obtain ⟨hafter, -⟩ := hwrite value
    have hlt : written.toNat < bank.data.size := (Array.getElem?_eq_some_iff.mp hbyte).1
    have hsame : written.toNat = offset.toNat ↔ written = offset := UInt16.toNat_inj
    simp only [byte?, hafter, hbank, Option.bind_some, hplace, Place.ram.injEq, true_and,
      Array.getElem?_setIfInBounds, hsame]
    split <;> rfl
  · -- the write goes elsewhere, so the bank stays as a whole
    have hne : ∀ written, bus.place address ≠ .ram id written := fun written heq =>
      hplace ⟨written, heq⟩
    rw [if_neg (hne offset), byte?, byte?, bank?_write_of_place_ne hne]

end Bus

end AppleOne
