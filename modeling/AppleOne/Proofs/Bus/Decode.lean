import AppleOne.Proofs.Bus.Flat
import AppleOne.Proofs.Bus.Layout

/-!
# Decoding addresses

An address stands for a byte of a bank, for a register of the adapter, or for nothing.
Which it is depends on the layout alone, so it stays what it is whatever the program does.

Mappings are well formed if they have no address in common, hold distinct parts, and every
bank is as long as its range. On such mappings every access does what its address stands
for, and no access misses the bank that it is meant for.

## Main definitions

* `Place`, and `Bus.place`: what an address stands for.
* `Mapping.WellFormed`: mappings that do not get in each other's way.
* `Bus.Holds`: accesses to an address do what it stands for.
* `Note.Reports`: a message about a fault.

## Main results

* `Bus.place_eq_of_layout`: what an address stands for depends on the layout.
* `Bus.holds_place`: accesses do what addresses stand for.
* `Bus.pia?_read`, `Bus.pia?_write`: what accesses do to the adapter.
* `Bus.log_read`, `Bus.log_write`: no access reports to have missed its bank.
-/

namespace AppleOne

/-! ## Places -/

/-- What an address stands for. -/
inductive Place where
  /-- A byte that can be changed, by the id of its bank and its offset there. -/
  | ram (id : String) (offset : UInt16)
  /-- A byte that cannot be changed. -/
  | rom (id : String) (offset : UInt16)
  /-- A register of the peripheral adapter, by its number. -/
  | register (offset : UInt16)
  | nothing
  deriving DecidableEq, Repr

namespace Mapping

/-- What an address within the range of a mapping stands for. -/
def place (mapping : Mapping) (address : UInt16) : Place :=
  match mapping.component with
  | .ram bank => .ram bank.id (address - mapping.start)
  | .rom bank => .rom bank.id (address - mapping.start)
  | .pia _ => .register (address - mapping.start)

@[simp] theorem place_blank (mapping : Mapping) : mapping.blank.place = mapping.place := by
  obtain ⟨start, last, name, component⟩ := mapping
  cases component <;> rfl

@[simp] theorem contains_blank (mapping : Mapping) (address : UInt16) :
    mapping.blank.contains address = mapping.contains address := rfl

/-- What an address stands for with some mappings. -/
def placeIn (mappings : List Mapping) (address : UInt16) : Place :=
  (mappings.find? (·.contains address)).elim .nothing (·.place address)

@[simp] theorem placeIn_nil (address : UInt16) : placeIn [] address = .nothing := rfl

@[simp] theorem placeIn_cons (mapping : Mapping) (rest : List Mapping) (address : UInt16) :
    placeIn (mapping :: rest) address =
      if mapping.contains address then mapping.place address else placeIn rest address := by
  unfold placeIn
  cases h : mapping.contains address <;> simp [h]

theorem placeIn_map_blank (mappings : List Mapping) (address : UInt16) :
    placeIn (mappings.map blank) address = placeIn mappings address := by
  induction mappings with
  | nil => rfl
  | cons mapping rest ih => rw [List.map_cons, placeIn_cons, placeIn_cons, ih, place_blank,
      contains_blank]

/-- The number of addresses in the range. -/
def width (mapping : Mapping) : Nat :=
  mapping.last.toNat + 1 - mapping.start.toNat

/-- No two mappings have an address in common or hold the same, and every bank is as long
as its range. -/
structure WellFormed (mappings : List Mapping) : Prop extends Distinct mappings where
  disjoint : mappings.Pairwise fun first second =>
    ∀ address, first.contains address = true → second.contains address = false
  sizes : ∀ mapping ∈ mappings, ∀ bank, mapping.component.bank? = some bank →
    bank.size = mapping.width

/-- A range that ends before another begins has no address in common with it. -/
theorem disjoint_of_lt {first second : Mapping} (h : first.last < second.start)
    (address : UInt16) (hcontains : first.contains address = true) :
    second.contains address = false := by
  simp only [contains, Bool.and_eq_true, decide_eq_true_eq] at hcontains
  have hstart : address < second.start := UInt16.lt_of_le_of_lt hcontains.2 h
  simp [contains, UInt16.not_le.mpr hstart]

variable {mapping : Mapping} {mappings : List Mapping} {address : UInt16}

theorem component_of_adapter? {adapter : Pia} (h : mapping.adapter? = some adapter) :
    mapping.component = .pia adapter := by
  obtain ⟨start, last, name, component⟩ := mapping
  cases component with
  | ram _ | rom _ => cases h
  | pia other => exact congrArg Component.pia (Option.some.inj h)

theorem bank?_blank (mapping : Mapping) :
    mapping.blank.component.bank? = mapping.component.bank?.map Bank.clear := by
  obtain ⟨start, last, name, component⟩ := mapping
  cases component <;> rfl

theorem size_clear (bank : Bank) : bank.clear.size = bank.size := by
  simp [Bank.clear, Bank.size]

/-- Whether mappings are well formed is a matter of the layout. -/
theorem wellFormed_of_blank {first second : List Mapping}
    (h : first.map blank = second.map blank) (hfirst : WellFormed first) : WellFormed second where
  toDistinct := distinct_of_blank h hfirst.toDistinct
  disjoint := by
    have hblank : (second.map blank).Pairwise fun first second =>
        ∀ address, first.contains address = true → second.contains address = false := by
      rw [← h, List.pairwise_map]
      simpa only [contains_blank] using hfirst.disjoint
    simpa only [List.pairwise_map, contains_blank] using hblank
  sizes := by
    intro mapping hmem bank hbank
    have hblank : mapping.blank ∈ first.map blank := h ▸ List.mem_map_of_mem hmem
    obtain ⟨other, hother, heq⟩ := List.mem_map.mp hblank
    -- the bank has the size that it had when the mappings were first looked at
    have hcleared : other.component.bank?.map Bank.clear = some bank.clear := by
      rw [← bank?_blank, heq, bank?_blank, hbank, Option.map_some]
    obtain ⟨otherBank, hotherBank, hclear⟩ := Option.map_eq_some_iff.mp hcleared
    have hwidth : other.blank.width = mapping.blank.width := congrArg width heq
    rw [← size_clear bank, ← hclear, size_clear, hfirst.sizes other hother otherBank hotherBank]
    exact hwidth

/-- An address within the range of a mapping lies within its bank. -/
theorem WellFormed.offset_lt (h : WellFormed mappings) (hmem : mapping ∈ mappings)
    (hcontains : mapping.contains address = true) {bank : Bank}
    (hbank : mapping.component.bank? = some bank) :
    (address - mapping.start).toNat < bank.size := by
  simp only [contains, Bool.and_eq_true, decide_eq_true_eq] at hcontains
  have hlast : address.toNat ≤ mapping.last.toNat := hcontains.2
  have hstart : mapping.start.toNat ≤ address.toNat := hcontains.1
  rw [h.sizes mapping hmem bank hbank, width, UInt16.toNat_sub_of_le _ _ hcontains.1]
  omega

end Mapping

/-! ## Messages about faults -/

/-- A message about a fault of some kind. -/
def Note.Reports (note : Note) (fault : Fault) : Prop :=
  ∃ source detail, note = fault.note source detail

/-- The first letters of its name tell what fault it is. -/
theorem Fault.eq_of_take_name {first second : Fault}
    (h : first.name.toList.take 2 = second.name.toList.take 2) : first = second := by
  revert h
  cases first <;> cases second <;> decide

/-- A message is about one kind of fault. -/
theorem Note.reports_unique {note : Note} {first second : Fault} (hfirst : note.Reports first)
    (hsecond : note.Reports second) : first = second := by
  obtain ⟨source, detail, rfl⟩ := hfirst
  obtain ⟨other, otherDetail, hnote⟩ := hsecond
  have hlength (fault : Fault) : 2 ≤ fault.name.toList.length := by cases fault <;> decide
  have htake (fault : Fault) (detail : String) :
      (fault.name ++ ": " ++ detail).toList.take 2 = fault.name.toList.take 2 := by
    rw [String.toList_append, String.toList_append, List.append_assoc,
      List.take_append_of_le_length (hlength fault)]
  refine Fault.eq_of_take_name ?_
  -- the texts are equal, and both begin with the name of the fault
  rw [← htake first detail, ← htake second otherDetail]
  exact congrArg (fun note : Note => note.text.toList.take 2) hnote

/-- A write to ROM is not reported as one beyond the end. -/
theorem Bank.not_reports_rejectWrite (bank : Bank) (offset : UInt16) (value : Nat) :
    ¬ (bank.rejectWrite offset value).Reports .outOfBounds := fun h => by
  cases Note.reports_unique ⟨_, _, rfl⟩ h

/-- A byte that is stored inside a bank takes the place of the one that was there. -/
theorem Bank.store_of_lt {bank : Bank} {offset : UInt16} (h : offset.toNat < bank.size)
    (value : UInt8) :
    bank.store offset value =
      ({ bank with data := bank.data.setIfInBounds offset.toNat value }, none) :=
  if_pos h

namespace Bus

/-- What an address stands for. -/
def place (bus : Bus) (address : UInt16) : Place := Mapping.placeIn bus.mappings address

/-- What an address stands for depends on the layout. -/
theorem place_eq_of_layout {bus : Bus} {layout : List Mapping}
    (h : bus.layout = layout.map Mapping.blank) (address : UInt16) :
    bus.place address = Mapping.placeIn layout address := by
  rw [place, ← Mapping.placeIn_map_blank, ← Mapping.placeIn_map_blank layout, ← h, Bus.layout]

/-! ## Parts and mappings -/

section OnFirst

variable {α β : Type} {qualifies : Mapping → Bool} {action : UInt16 → Component → α × Component}
  {mappings : List Mapping}

/-- A part of the mappings that the action leaves alone where it is carried out stays. -/
theorem map_onFirst (part : Mapping → β)
    (h : ∀ mapping, mappings.find? qualifies = some mapping →
      part (mapping.onComponent fun start component => (action start component).2) =
        part mapping) :
    (onFirst qualifies action mappings).2.map part = mappings.map part := by
  induction mappings with
  | nil => rfl
  | cons mapping rest ih =>
    cases hqualifies : qualifies mapping with
    | true =>
      rw [onFirst_cons_of_qualifies action hqualifies, List.map_cons, List.map_cons,
        h mapping (List.find?_cons_of_pos hqualifies)]
    | false =>
      rw [onFirst_cons_of_not_qualifies action hqualifies, List.map_cons, List.map_cons,
        ih fun other hother => h other
          ((List.find?_cons_of_neg (by simp [hqualifies])).trans hother)]

end OnFirst

variable {bus : Bus} {mapping : Mapping} {address : UInt16}

theorem place_of_serving (h : bus.serving? address = some mapping) :
    bus.place address = mapping.place address :=
  congrArg (fun served : Option Mapping => served.elim Place.nothing (·.place address)) h

theorem place_of_not_serving (h : bus.serving? address = none) : bus.place address = .nothing :=
  congrArg (fun served : Option Mapping => served.elim Place.nothing (·.place address)) h

theorem mem_of_serving? (h : bus.serving? address = some mapping) :
    mapping ∈ bus.mappings ∧ mapping.contains address = true :=
  ⟨List.mem_of_find?_eq_some h, Mapping.contains_of_find? h⟩

/-- If no other mapping qualifies, it is the one that is found. -/
theorem find?_of_unique {qualifies : Mapping → Bool} {mappings : List Mapping}
    (hpairs : mappings.Pairwise fun first second =>
      qualifies first = true → qualifies second = false)
    (hmem : mapping ∈ mappings) (h : qualifies mapping = true) :
    mappings.find? qualifies = some mapping := by
  induction mappings with
  | nil => cases hmem
  | cons first rest ih =>
    obtain ⟨hfirst, hrest⟩ := List.pairwise_cons.mp hpairs
    rcases List.mem_cons.mp hmem with rfl | hmem
    · exact List.find?_cons_of_pos h
    · have hnot : ¬ qualifies first = true := fun hqualifies => by
        simp [hfirst mapping hmem hqualifies] at h
      rw [List.find?_cons_of_neg hnot]
      exact ih hrest hmem

/-- The bank of a mapping is found by its id. -/
theorem bank?_of_mem (hdistinct : Mapping.Distinct bus.mappings) (hmem : mapping ∈ bus.mappings)
    {bank : Bank} (hbank : mapping.component.bank? = some bank) :
    bus.bank? bank.id = some bank := by
  have hpairs : bus.mappings.Pairwise fun first second =>
      holdsBank bank.id first = true → holdsBank bank.id second = false :=
    hdistinct.banks.imp fun h hfirst => by
      have hne := h bank.id (Mapping.holdsBank_iff.mp hfirst)
      exact Bool.eq_false_iff.mpr fun hsecond => hne (Mapping.holdsBank_iff.mp hsecond)
  have hholds : holdsBank bank.id mapping = true := by simp [holdsBank, hbank]
  have hfind : bus.mappings.find? (fun mapping => mapping.component.bank?.any (·.id == bank.id)) =
      some mapping := find?_of_unique hpairs hmem hholds
  rw [bank?, banks, List.find?_filterMap, hfind, Option.bind_some, hbank]

/-! ## The adapter -/

/-- The adapter that is found depends on the adapters in the mappings alone. -/
theorem findSome?_adapter?_congr {first second : List Mapping}
    (h : first.map Mapping.adapter? = second.map Mapping.adapter?) :
    first.findSome? Mapping.adapter? = second.findSome? Mapping.adapter? := by
  have hfind (mappings : List Mapping) :
      mappings.findSome? Mapping.adapter? = (mappings.map Mapping.adapter?).findSome? id := by
    rw [List.findSome?_map]
    rfl
  rw [hfind, hfind, h]

/-- An access that changes adapters in some way, and leaves banks banks, changes the adapter
in that way if it goes there. -/
theorem pia?_onFirst {α : Type} {action : UInt16 → Component → α × Component}
    (change : UInt16 → Pia → Pia) {other : Bus} (hdistinct : Mapping.Distinct bus.mappings)
    (hmappings : other.mappings = (onFirst (·.contains address) action bus.mappings).2)
    (hlayout : other.layout = bus.layout)
    (haction : ∀ mapping : Mapping,
      (mapping.onComponent fun start component => (action start component).2).adapter? =
        mapping.adapter?.map (change (address - mapping.start))) :
    other.pia? =
      match bus.place address with
      | .register offset => bus.pia?.map (change offset)
      | _ => bus.pia? := by
  -- an access that does not go to an adapter leaves all of them as they are
  have hsame (h : (bus.serving? address).bind Mapping.adapter? = none) :
      other.pia? = bus.pia? := by
    refine findSome?_adapter?_congr (hmappings ▸ map_onFirst Mapping.adapter?
      fun mapping hmapping => ?_)
    have hnone : mapping.adapter? = none := by
      simpa only [serving?, hmapping, Option.bind_some] using h
    rw [haction, hnone, Option.map_none]
  cases hserving : bus.serving? address with
  | none =>
    rw [place_of_not_serving hserving]
    exact hsame (by simp [hserving])
  | some mapping =>
    have hchanged := haction mapping
    rw [place_of_serving hserving]
    obtain ⟨start, last, name, component⟩ := mapping
    cases component with
    | ram _ | rom _ => exact hsame (by simp [hserving, Mapping.adapter?])
    | pia adapter =>
      -- the mapping stays in its place, and it holds the changed adapter
      have hpia : bus.pia? = some adapter :=
        pia?_of_mem hdistinct (mem_of_serving? hserving).1 rfl
      have hserved : other.serving? address = (bus.serving? address).map
          (·.onComponent fun start component => (action start component).2) := by
        rw [serving?, hmappings, find?_onFirst, if_pos rfl]
        rfl
      rw [hserving, Option.map_some] at hserved
      have hother := pia?_of_mem (Mapping.distinct_of_blank hlayout.symm hdistinct)
        (mem_of_serving? hserved).1 (Mapping.component_of_adapter? hchanged)
      simpa only [Mapping.place, hpia, Option.map_some] using hother

/-- A read has its effect on the adapter if it goes there. -/
theorem pia?_read (hdistinct : Mapping.Distinct bus.mappings) (address : UInt16) :
    (bus.read address).2.pia? =
      match bus.place address with
      | .register offset => bus.pia?.map fun adapter => (adapter.read offset).2
      | _ => bus.pia? := by
  refine pia?_onFirst (fun offset adapter => (adapter.read offset).2) hdistinct
    (mappings_reportAny _ _) (bus.layout_read address) fun mapping => ?_
  obtain ⟨start, last, name, component⟩ := mapping
  cases component <;> rfl

/-- A write changes the adapter if it goes there. -/
theorem pia?_write (hdistinct : Mapping.Distinct bus.mappings) (address : UInt16)
    (value : UInt8) :
    (bus.write address value).pia? =
      match bus.place address with
      | .register offset => bus.pia?.map (·.write offset value)
      | _ => bus.pia? := by
  refine pia?_onFirst (fun offset adapter => adapter.write offset value) hdistinct
    (mappings_reportAny _ _) (bus.layout_write address value) fun mapping => ?_
  obtain ⟨start, last, name, component⟩ := mapping
  cases component <;> rfl

/-! ## What accesses do -/

section Access

variable {α : Type} {qualifies : Mapping → Bool} {action : UInt16 → Component → α × Component}
  {mappings : List Mapping}

/-- An action that changes no component changes no mapping. -/
theorem onFirst_of_unchanged
    (h : ∀ mapping, mappings.find? qualifies = some mapping →
      (action mapping.start mapping.component).2 = mapping.component) :
    (onFirst qualifies action mappings).2 = mappings := by
  simpa only [List.map_id] using map_onFirst id fun mapping hfind =>
    congrArg (Mapping.mk mapping.start mapping.last mapping.name) (h mapping hfind)

end Access

theorem reportAny_eq (bus : Bus) (note : Option Note) :
    bus.reportAny note = { bus with log := bus.log.addAll note.toList } := by
  cases note <;> rfl

/-- A read that leaves the component as it is leaves all mappings. -/
theorem mappings_read_of_unchanged
    (h : ∀ mapping, bus.serving? address = some mapping →
      (mapping.component.read (address - mapping.start)).2.1 = mapping.component) :
    (bus.read address).2.mappings = bus.mappings := by
  simp only [read, mappings_reportAny]
  exact onFirst_of_unchanged h

/-- A write that leaves the component as it is leaves all mappings. -/
theorem mappings_write_of_unchanged {value : UInt8}
    (h : ∀ mapping, bus.serving? address = some mapping →
      (mapping.component.write (address - mapping.start) value).1 = mapping.component) :
    (bus.write address value).mappings = bus.mappings := by
  simp only [write, mappings_reportAny]
  exact onFirst_of_unchanged h

/-- What comes of a read besides the mappings: the byte of the component, which is kept as
the last one read, and what the component reports. -/
theorem read_eq (bus : Bus) (address : UInt16) :
    bus.read address =
      let (value, note) := (bus.serving? address).elim (0, none) fun mapping =>
        let (value, _, note) := mapping.component.read (address - mapping.start)
        (value, note)
      (value,
        { bus with
          mappings := (bus.read address).2.mappings
          lastRead := some ⟨address, value⟩
          log := bus.log.addAll note.toList }) := by
  unfold read serving?
  simp only [answer_onFirst, reportAny_eq]
  cases bus.mappings.find? (·.contains address) <;> rfl

/-- What comes of a write besides the mappings. -/
theorem write_eq (bus : Bus) (address : UInt16) (value : UInt8) :
    bus.write address value =
      { bus with
        mappings := (bus.write address value).mappings
        lastWrite := some ⟨address, value⟩
        log := bus.log.addAll ((bus.serving? address).elim none fun mapping =>
          (mapping.component.write (address - mapping.start) value).2).toList } := by
  unfold write serving?
  simp only [answer_onFirst, reportAny_eq]
  cases bus.mappings.find? (·.contains address) <;> rfl

/-- A byte is seen at an address, and reading it changes nothing but the last access. -/
structure Shows (bus : Bus) (address : UInt16) (byte : UInt8) : Prop where
  peek : bus.peek address = byte
  read : bus.read address = (byte, { bus with lastRead := some ⟨address, byte⟩ })

/-- Accesses to an address do what it stands for. -/
def Holds (bus : Bus) (address : UInt16) : Place → Prop
  | .ram id offset => ∃ bank byte, bus.bank? id = some bank ∧
      bank.data[offset.toNat]? = some byte ∧ bus.Shows address byte ∧
      ∀ value,
        (bus.write address value).bank? id =
          some { bank with data := bank.data.setIfInBounds offset.toNat value } ∧
        (bus.write address value).log = bus.log
  | .rom id offset => ∃ bank byte, bus.bank? id = some bank ∧
      bank.data[offset.toNat]? = some byte ∧ bus.Shows address byte ∧
      ∀ value, bus.write address value =
        { bus with
          lastWrite := some ⟨address, value⟩
          log := bus.log.add (bank.rejectWrite offset value.toNat) }
  | .register offset => ∃ adapter, bus.pia? = some adapter ∧
      bus.peek address = adapter.peek offset ∧
      (bus.read address).1 = (adapter.read offset).1 ∧
      (bus.read address).2.pia? = some (adapter.read offset).2 ∧
      (bus.read address).2.log = bus.log ∧
      ∀ value,
        (bus.write address value).pia? = some (adapter.write offset value) ∧
        (bus.write address value).log = bus.log
  | .nothing => bus.Shows address 0 ∧
      ∀ value, bus.write address value = { bus with lastWrite := some ⟨address, value⟩ }

/-- A byte of a bank is seen at its address. -/
theorem shows_of_serving (h : bus.serving? address = some mapping) {bank : Bank}
    (hbank : mapping.component = .ram bank ∨ mapping.component = .rom bank)
    (hlt : (address - mapping.start).toNat < bank.size) :
    bus.Shows address (bank.peek (address - mapping.start)) := by
  have hread : mapping.component.read (address - mapping.start) =
      (bank.peek (address - mapping.start), mapping.component, none) := by
    rcases hbank with hbank | hbank <;> simp only [hbank, Component.read, Bank.read_of_lt hlt]
  constructor
  · simp only [Bus.peek, h]
    rcases hbank with hbank | hbank <;> rw [hbank] <;> rfl
  · rw [read_eq, mappings_read_of_unchanged (by simp [h, hread])]
    simp only [h, Option.elim_some, hread]
    rfl

/-- A byte that is written to RAM is stored in the bank. -/
theorem bank?_write (hdistinct : Mapping.Distinct bus.mappings) {start last : UInt16}
    {name : String} {bank : Bank} (h : bus.serving? address = some ⟨start, last, name, .ram bank⟩)
    (value : UInt8) :
    (bus.write address value).bank? bank.id = some (bank.store (address - start) value).1 := by
  have hserved := serving?_write bus address address value
  rw [if_pos rfl, h, Option.map_some] at hserved
  have hdistinct' : Mapping.Distinct (bus.write address value).mappings :=
    Mapping.distinct_of_blank (bus.layout_write address value).symm hdistinct
  have hid : (bank.store (address - start) value).1.id = bank.id := by
    unfold Bank.store
    split <;> rfl
  have hfound : (bus.write address value).bank? (bank.store (address - start) value).1.id = _ :=
    bank?_of_mem hdistinct' (mem_of_serving? hserved).1 rfl
  rwa [hid] at hfound

theorem getElem?_of_lt {bank : Bank} {offset : UInt16} (h : offset.toNat < bank.size) :
    bank.data[offset.toNat]? = some (bank.peek offset) := by
  have hsize : offset.toNat < bank.data.size := h
  simp [Bank.peek, hsize]

/-- On well-formed mappings accesses do what addresses stand for. -/
theorem holds_place (h : Mapping.WellFormed bus.mappings) (address : UInt16) :
    bus.Holds address (bus.place address) := by
  cases hserving : bus.serving? address with
  | none =>
    -- nobody answers
    have hplace : bus.place address = .nothing := place_of_not_serving hserving
    rw [hplace]
    refine ⟨⟨by simp only [Bus.peek, hserving], ?_⟩, fun value => ?_⟩
    · rw [read_eq, mappings_read_of_unchanged (by simp [hserving]), hserving]
      rfl
    · rw [write_eq, mappings_write_of_unchanged (by simp [hserving]), hserving]
      rfl
  | some mapping =>
    obtain ⟨hmem, hcontains⟩ := mem_of_serving? hserving
    have hplace : bus.place address = mapping.place address := place_of_serving hserving
    have hread := read_eq bus address
    have hwrite := write_eq bus address
    rw [hserving] at hread hwrite
    have hpiaRead := pia?_read h.toDistinct address
    have hpiaWrite := pia?_write h.toDistinct address
    rw [hplace] at hpiaRead hpiaWrite ⊢
    obtain ⟨start, last, name, component⟩ := mapping
    cases component with
    | ram bank =>
      -- the bank is as long as the range, so the byte is there
      have hlt : (address - start).toNat < bank.size := h.offset_lt hmem hcontains rfl
      refine ⟨bank, _, bank?_of_mem h.toDistinct hmem rfl, getElem?_of_lt hlt,
        shows_of_serving hserving (.inl rfl) hlt, fun value => ⟨?_, ?_⟩⟩
      · rw [bank?_write h.toDistinct hserving, Bank.store_of_lt hlt]
      · rw [hwrite]
        simp only [Option.elim_some, Component.write, Bank.store_of_lt hlt]
        rfl
    | rom bank =>
      have hlt : (address - start).toNat < bank.size := h.offset_lt hmem hcontains rfl
      refine ⟨bank, _, bank?_of_mem h.toDistinct hmem rfl, getElem?_of_lt hlt,
        shows_of_serving hserving (.inr rfl) hlt, fun value => ?_⟩
      rw [hwrite, mappings_write_of_unchanged (by simp [hserving, Component.write])]
      rfl
    | pia adapter =>
      have hpia : bus.pia? = some adapter := pia?_of_mem h.toDistinct hmem rfl
      refine ⟨adapter, hpia, ?_, ?_, ?_, ?_, fun value => ⟨?_, ?_⟩⟩
      · simp only [Bus.peek, hserving]
        rfl
      · rw [hread]
        rfl
      · exact hpiaRead.trans (hpia ▸ rfl)
      · rw [hread]
        rfl
      · exact (hpiaWrite value).trans (hpia ▸ rfl)
      · rw [hwrite]
        rfl

/-! ## What accesses report -/

/-- On well-formed mappings reads report nothing. -/
theorem log_read (h : Mapping.WellFormed bus.mappings) (address : UInt16) :
    (bus.read address).2.log = bus.log := by
  have hholds := holds_place h address
  cases hplace : bus.place address with
  | ram id offset | rom id offset =>
    rw [hplace] at hholds
    obtain ⟨bank, byte, -, -, hshows, -⟩ := hholds
    rw [hshows.read]
  | register offset =>
    rw [hplace] at hholds
    obtain ⟨adapter, -, -, -, -, hlog, -⟩ := hholds
    exact hlog
  | nothing =>
    rw [hplace] at hholds
    rw [hholds.1.read]

/-- On well-formed mappings writes report at most that they went to ROM. -/
theorem log_write (h : Mapping.WellFormed bus.mappings) (address : UInt16) (value : UInt8) :
    ∃ note : Option Note, (bus.write address value).log = bus.log.addAll note.toList ∧
      ∀ reported ∈ note, ¬ reported.Reports .outOfBounds := by
  have hholds := holds_place h address
  cases hplace : bus.place address with
  | ram id offset =>
    rw [hplace] at hholds
    obtain ⟨bank, byte, -, -, -, hwrite⟩ := hholds
    exact ⟨none, (hwrite value).2, by simp⟩
  | rom id offset =>
    rw [hplace] at hholds
    obtain ⟨bank, byte, -, -, -, hwrite⟩ := hholds
    -- only a write to ROM is reported, and it is not said to be out of bounds
    refine ⟨some (bank.rejectWrite offset value.toNat), by rw [hwrite]; rfl, ?_⟩
    intro reported hreported
    rw [← Option.some.inj hreported]
    exact bank.not_reports_rejectWrite offset value.toNat
  | register offset =>
    rw [hplace] at hholds
    obtain ⟨adapter, -, -, -, -, -, hwrite⟩ := hholds
    exact ⟨none, (hwrite value).2, by simp⟩
  | nothing =>
    rw [hplace] at hholds
    exact ⟨none, by rw [hholds.2]; rfl, by simp⟩

end Bus

end AppleOne
