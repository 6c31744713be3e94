import AppleOne.Proofs.Bus.Banks
import AppleOne.Proofs.Pia.History

/-!
# Dispatch

Which component an address reaches is decided by the order in which ranges were mapped: the
earliest one that contains the address has it, under the offset from where it starts, and no
other component takes notice. A range that is mapped later gets what is left. Banks may be
shorter than their ranges; what lies beyond their ends reads as zero and takes nothing.

A read answers what a peek would have answered. Looking at data through a side of the adapter
clears the flags of that side, and this is all that reads change in components.

## Main definitions

* `Bus.Operation`: what can be done to a bus; `Bus.after`: the bus after a list of operations.
* `Component.afterRead`: what a read leaves of a component.
* `Bus.Reaches`, `Bus.ReachesNothing`: what accesses to an address do.

## Main results

* `Component.read_eq`, `Component.peek_write_of_ne`: accesses to a component.
* `Bus.reaches_or`: accesses to the bus.
* `Bus.overlaps_iff_serving`: the test for overlaps and the search for an address agree.
* `Bus.first_mapping_serves`: all of it, after any operations.
-/

namespace AppleOne

/-! ## Adapters -/

namespace Pia

/-- The adapter with both flags of a side down. -/
def clearFlags (side : Side) (adapter : Pia) : Pia :=
  side.map (fun port => { port with control := port.control &&& ~~~Port.flagMask }) adapter

/-- The side whose data are read at an offset. Where the direction register is accessible
instead, no data are read. -/
def dataRead? (adapter : Pia) (offset : UInt16) : Option Side :=
  match Register.ofOffset offset with
  | .dataA => if adapter.a.dataSelected then some .a else none
  | .dataB => if adapter.b.dataSelected then some .b else none
  | _ => none

/-- A read answers as a peek, and it clears the flags of the side whose data it reads. -/
theorem read_eq (adapter : Pia) (offset : UInt16) :
    adapter.read offset =
      (adapter.peek offset, (adapter.dataRead? offset).elim adapter (adapter.clearFlags ·)) := by
  unfold read peek dataRead?
  cases Register.ofOffset offset with
  | controlA | controlB => rfl
  | dataA =>
    refine congrArg (Prod.mk _) ?_
    have hselected : adapter.ports.a.dataSelected = adapter.a.dataSelected := rfl
    cases h : adapter.a.dataSelected with
    | true => simp [clearFlags, Side.map, mapA, Port.read, hselected, h]
    | false => simp [mapA, Port.read, hselected, h]
  | dataB =>
    refine congrArg (Prod.mk _) ?_
    have hselected : adapter.ports.b.dataSelected = adapter.b.dataSelected := rfl
    cases h : adapter.b.dataSelected with
    | true => simp [clearFlags, Side.map, mapB, Port.read, hselected, h]
    | false => simp [mapB, Port.read, hselected, h]

end Pia

/-! ## Components -/

namespace Bank

variable {bank : Bank} {offset : UInt16}

theorem peek_of_not_lt (h : ¬ offset.toNat < bank.size) : bank.peek offset = 0 := by
  have hsize : ¬ offset.toNat < bank.data.size := h
  simp [peek, hsize]

/-- A read answers as a peek, and it is reported if it misses the bank. -/
theorem read_eq (bank : Bank) (offset : UInt16) :
    bank.read offset =
      (bank.peek offset,
        if offset.toNat < bank.size then none else some (bank.outside "read" offset)) := by
  unfold read
  split
  · rfl
  · next h => rw [peek_of_not_lt h]

/-- A write beyond the end stores nothing. -/
theorem store_of_not_lt (h : ¬ offset.toNat < bank.size) (value : UInt8) :
    (bank.store offset value).1 = bank := by
  rw [store, if_neg h]

end Bank

namespace Component

/-- What a read leaves of a component: a bank is as it was, and an adapter has the flags of the
side down whose data were read. -/
def afterRead (component : Component) (offset : UInt16) : Component :=
  match component with
  | pia adapter => pia ((adapter.dataRead? offset).elim adapter (adapter.clearFlags ·))
  | bank => bank

/-- The report of a read that misses the bank. -/
def missedRead? (component : Component) (offset : UInt16) : Option Note :=
  component.bank?.bind fun bank =>
    if offset.toNat < bank.size then none else some (bank.outside "read" offset)

theorem read_eq (component : Component) (offset : UInt16) :
    component.read offset =
      (component.peek offset, component.afterRead offset, component.missedRead? offset) := by
  cases component with
  | ram bank | rom bank =>
    simp only [read, Bank.read_eq, peek, afterRead, missedRead?, bank?, Option.bind_some]
  | pia adapter =>
    simp only [read, Pia.read_eq, peek, afterRead, missedRead?, bank?, Option.bind_none]

/-- What is found at an offset to which a value was written: RAM has it if the offset is within
the bank, ROM has what it had, and the adapter decides for itself. -/
def found (component : Component) (offset : UInt16) (value : UInt8) : UInt8 :=
  match component with
  | ram bank => if offset.toNat < bank.size then value else 0
  | rom bank => if offset.toNat < bank.size then bank.peek offset else 0
  | pia adapter => (adapter.write offset value).peek offset

theorem peek_write (component : Component) (offset : UInt16) (value : UInt8) :
    (component.write offset value).1.peek offset = component.found offset value := by
  cases component with
  | pia adapter => rfl
  | ram bank =>
    simp only [write, peek, found]
    split
    · next h => exact (Bank.peek_store h value offset).trans (if_pos rfl)
    · next h => rw [Bank.store_of_not_lt h, Bank.peek_of_not_lt h]
  | rom bank =>
    simp only [write, peek, found]
    split
    · rfl
    · next h => exact Bank.peek_of_not_lt h

/-- A write to a bank concerns one offset. -/
theorem peek_write_of_ne {component : Component} (hbank : component.bank?.isSome = true)
    {written offset : UInt16} (h : offset ≠ written) (value : UInt8) :
    (component.write written value).1.peek offset = component.peek offset := by
  cases component with
  | pia adapter => cases hbank
  | rom bank => rfl
  | ram bank =>
    simp only [write, peek]
    by_cases hwritten : written.toNat < bank.size
    · exact (Bank.peek_store hwritten value offset).trans (if_neg h)
    · rw [Bank.store_of_not_lt hwritten]

end Component

namespace Bus

/-! ## Accesses -/

/-- Accesses to an address go to the earliest mapping that contains it, under the offset from
where it starts, and leave all mappings before and behind it as they are. -/
structure Reaches (bus : Bus) (address : UInt16) (before : List Mapping) (mapping : Mapping)
    (behind : List Mapping) : Prop where
  mappings : bus.mappings = before ++ mapping :: behind
  inside : mapping.start ≤ address ∧ address ≤ mapping.last
  earliest : ∀ other ∈ before, ¬ (other.start ≤ address ∧ address ≤ other.last)
  serving : bus.serving? address = some mapping
  peek : bus.peek address = mapping.component.peek (address - mapping.start)
  read : bus.read address =
    (mapping.component.peek (address - mapping.start),
      { bus with
        mappings := before ++
          { mapping with component := mapping.component.afterRead (address - mapping.start) } ::
            behind
        lastRead := some ⟨address, mapping.component.peek (address - mapping.start)⟩
        log := bus.log.addAll (mapping.component.missedRead? (address - mapping.start)).toList })
  write : ∀ value,
    let (component, note) := mapping.component.write (address - mapping.start) value
    bus.write address value =
      { bus with
        mappings := before ++ { mapping with component } :: behind
        lastWrite := some ⟨address, value⟩
        log := bus.log.addAll note.toList }
  found : ∀ value, ((bus.write address value).read address).1 =
    mapping.component.found (address - mapping.start) value

/-- No mapping contains the address, and accesses to it do nothing but be remembered. -/
structure ReachesNothing (bus : Bus) (address : UInt16) : Prop where
  outside : ∀ mapping ∈ bus.mappings, ¬ (mapping.start ≤ address ∧ address ≤ mapping.last)
  peek : bus.peek address = 0
  read : bus.read address = (0, { bus with lastRead := some ⟨address, 0⟩ })
  write : ∀ value, bus.write address value = { bus with lastWrite := some ⟨address, value⟩ }
  found : ∀ value, ((bus.write address value).read address).1 = 0

theorem contains_iff {mapping : Mapping} {address : UInt16} :
    mapping.contains address = true ↔ mapping.start ≤ address ∧ address ≤ mapping.last := by
  simp [Mapping.contains]

section OnFirst

variable {α : Type} {qualifies : Mapping → Bool} (action : UInt16 → Component → α × Component)

/-- An action is carried out in its place in the list. -/
theorem onFirst_append {before : List Mapping} {mapping : Mapping}
    (hbefore : ∀ other ∈ before, qualifies other = false) (h : qualifies mapping = true)
    (behind : List Mapping) :
    (onFirst qualifies action (before ++ mapping :: behind)).2 =
      before ++ mapping.onComponent (fun start component => (action start component).2) ::
        behind := by
  induction before with
  | nil => exact congrArg Prod.snd (onFirst_cons_of_qualifies action h behind)
  | cons first before ih =>
    obtain ⟨hfirst, hrest⟩ := List.forall_mem_cons.mp hbefore
    rw [List.cons_append, onFirst_cons_of_not_qualifies action hfirst, ih hrest, List.cons_append]

end OnFirst

variable {bus : Bus} {address : UInt16}

/-- The mapping that is found, and what lies before and behind it. -/
theorem serving?_eq_some_iff {mapping : Mapping} :
    bus.serving? address = some mapping ↔
      (mapping.start ≤ address ∧ address ≤ mapping.last) ∧
        ∃ before behind, bus.mappings = before ++ mapping :: behind ∧
          ∀ other ∈ before, ¬ (other.start ≤ address ∧ address ≤ other.last) := by
  simp only [serving?, List.find?_eq_some_iff_append, contains_iff, Bool.not_eq_true',
    ← Bool.not_eq_true]

theorem serving?_eq_none_iff :
    bus.serving? address = none ↔
      ∀ mapping ∈ bus.mappings, ¬ (mapping.start ≤ address ∧ address ≤ mapping.last) := by
  simp only [serving?, List.find?_eq_none, contains_iff]

/-- A read answers what a peek would have answered just before. -/
theorem fst_read (bus : Bus) (address : UInt16) : (bus.read address).1 = bus.peek address := by
  rw [read_value, peek]
  cases bus.serving? address with
  | none => rfl
  | some mapping => simp only [Component.read_eq]

/-- What is found at an address to which a value was written. -/
theorem peek_write (bus : Bus) (address : UInt16) (value : UInt8) :
    (bus.write address value).peek address =
      (bus.serving? address).elim 0 fun mapping =>
        mapping.component.found (address - mapping.start) value := by
  rw [peek, serving?_write, if_pos rfl]
  cases bus.serving? address with
  | none => rfl
  | some mapping => exact mapping.component.peek_write (address - mapping.start) value

/-- Accesses reach the mapping that is found, wherever it is in the list. -/
theorem reaches_of_serving {before behind : List Mapping} {mapping : Mapping}
    (hmappings : bus.mappings = before ++ mapping :: behind)
    (hinside : mapping.start ≤ address ∧ address ≤ mapping.last)
    (hearliest : ∀ other ∈ before, ¬ (other.start ≤ address ∧ address ≤ other.last)) :
    bus.Reaches address before mapping behind := by
  have hserving : bus.serving? address = some mapping :=
    serving?_eq_some_iff.mpr ⟨hinside, before, behind, hmappings, hearliest⟩
  have hbefore : ∀ other ∈ before, other.contains address = false := fun other hother =>
    Bool.eq_false_iff.mpr (mt contains_iff.mp (hearliest other hother))
  refine ⟨hmappings, hinside, hearliest, hserving, by rw [Bus.peek, hserving], ?_,
    fun value => ?_, fun value => by rw [fst_read, peek_write, hserving, Option.elim_some]⟩
  · -- the mappings before it are passed over, so this one is changed in its place
    have hplace : (bus.read address).2.mappings = before ++
        { mapping with component := mapping.component.afterRead (address - mapping.start) } ::
          behind := by
      simp only [Bus.read, mappings_reportAny, hmappings]
      rw [onFirst_append _ hbefore (contains_iff.mpr hinside)]
      simp only [Mapping.onComponent, Component.read_eq]
    rw [read_eq, hplace, hserving]
    simp only [Option.elim_some, Component.read_eq]
  · have hplace : (bus.write address value).mappings = before ++
        { mapping with
          component := (mapping.component.write (address - mapping.start) value).1 } ::
          behind := by
      simp only [Bus.write, mappings_reportAny, hmappings]
      rw [onFirst_append _ hbefore (contains_iff.mpr hinside)]
      rfl
    rw [write_eq, hplace, hserving]
    rfl

theorem reachesNothing_of_not_serving (h : bus.serving? address = none) :
    bus.ReachesNothing address := by
  refine ⟨serving?_eq_none_iff.mp h, by rw [Bus.peek, h], ?_, fun value => ?_,
    fun value => by rw [fst_read, peek_write, h, Option.elim_none]⟩
  · rw [read_eq, mappings_read_of_unchanged (by simp [h]), h]
    rfl
  · rw [write_eq, mappings_write_of_unchanged (by simp [h]), h]
    rfl

/-- Accesses to an address reach one mapping or nothing. -/
theorem reaches_or (bus : Bus) (address : UInt16) :
    bus.ReachesNothing address ∨
      ∃ before mapping behind, bus.Reaches address before mapping behind := by
  cases h : bus.serving? address with
  | none => exact .inl (reachesNothing_of_not_serving h)
  | some mapping =>
    obtain ⟨hinside, before, behind, hmappings, hearliest⟩ := serving?_eq_some_iff.mp h
    exact .inr ⟨before, mapping, behind, reaches_of_serving hmappings hinside hearliest⟩

/-- A write changes what is seen at no other address of a bank. -/
theorem peek_write_of_ne {other : UInt16} (hne : other ≠ address) {mapping : Mapping}
    (hserving : bus.serving? other = some mapping)
    (hbank : mapping.component.bank?.isSome = true) (value : UInt8) :
    (bus.write address value).peek other = bus.peek other := by
  have hwrite : (bus.write address value).serving? other =
      if some mapping = bus.serving? address then
        some (mapping.onComponent fun start component =>
          (component.write (address - start) value).1)
      else some mapping := by
    rw [serving?_write, hserving, Option.map_some]
  rw [peek, hwrite, peek, hserving]
  split_ifs with hsame
  · -- both addresses are in one bank, under different offsets
    have hoffset : other - mapping.start ≠ address - mapping.start :=
      mt (UInt16.sub_left_inj mapping.start).mp hne
    exact Component.peek_write_of_ne hbank hoffset value
  · rfl

/-! ## Mapping -/

/-- The bus after a range was mapped. A range that ends before it starts is refused. -/
def mapped (bus : Bus) (start last : UInt16) (name : String) (component : Component) : Bus :=
  (bus.map? start last name component).toOption.getD bus

theorem mappings_mapped (bus : Bus) (start last : UInt16) (name : String) (component : Component) :
    (bus.mapped start last name component).mappings =
      bus.mappings ++ if start ≤ last then [⟨start, last, name, component⟩] else [] := by
  unfold mapped map?
  by_cases h : start ≤ last
  · rw [if_neg (UInt16.not_lt.mpr h), if_pos h]
    simp only [Except.toOption, Option.getD_some, mappings_reportAny]
  · rw [if_pos (UInt16.not_le.mp h), if_neg h, List.append_nil]
    rfl

/-- A range that is mapped gets the addresses that no earlier one contains. -/
theorem serving?_mapped (bus : Bus) (start last : UInt16) (name : String) (component : Component)
    (address : UInt16) :
    (bus.mapped start last name component).serving? address =
      (bus.serving? address).or
        (if start ≤ address ∧ address ≤ last then some ⟨start, last, name, component⟩
        else none) := by
  rw [serving?, mappings_mapped, List.find?_append, serving?]
  congr 1
  by_cases hinside : start ≤ address ∧ address ≤ last
  · rw [if_pos hinside, if_pos (UInt16.le_trans hinside.1 hinside.2)]
    exact Mapping.find?_contains_cons_of_pos (contains_iff.mpr hinside)
  · rw [if_neg hinside]
    split_ifs
    · exact Mapping.find?_contains_cons_of_neg
        (Bool.eq_false_iff.mpr (mt contains_iff.mp hinside))
    · rfl

/-- Two ranges overlap if they have an address in common. -/
theorem overlaps_iff {mapping : Mapping} {start last : UInt16} (h : start ≤ last)
    (hmapping : mapping.start ≤ mapping.last) :
    mapping.overlaps start last = true ↔
      ∃ address, (start ≤ address ∧ address ≤ last) ∧
        mapping.start ≤ address ∧ address ≤ mapping.last := by
  simp only [Mapping.overlaps, Bool.and_eq_true, decide_eq_true_eq]
  constructor
  · rintro ⟨hlast, hstart⟩
    -- the range that starts later starts within the other
    rcases UInt16.le_total start mapping.start with hle | hle
    · exact ⟨mapping.start, ⟨hle, hstart⟩, UInt16.le_refl _, hmapping⟩
    · exact ⟨start, ⟨UInt16.le_refl _, h⟩, hle, hlast⟩
  · rintro ⟨address, ⟨hstart, hlast⟩, hmappingStart, hmappingLast⟩
    exact ⟨UInt16.le_trans hstart hmappingLast, UInt16.le_trans hmappingStart hlast⟩

/-- The test for overlaps finds a mapping if the search for some address of the range does. -/
theorem overlaps_iff_serving (hvalid : ∀ mapping ∈ bus.mappings, mapping.start ≤ mapping.last)
    {start last : UInt16} (h : start ≤ last) :
    (bus.mappings.find? (·.overlaps start last)).isSome = true ↔
      ∃ address, (start ≤ address ∧ address ≤ last) ∧ (bus.serving? address).isSome = true := by
  simp only [serving?, List.find?_isSome, contains_iff]
  constructor
  · rintro ⟨mapping, hmem, hoverlaps⟩
    obtain ⟨address, hrange, hinside⟩ := (overlaps_iff h (hvalid mapping hmem)).mp hoverlaps
    exact ⟨address, hrange, mapping, hmem, hinside⟩
  · rintro ⟨address, hrange, mapping, hmem, hinside⟩
    exact ⟨mapping, hmem, (overlaps_iff h (hvalid mapping hmem)).mpr ⟨address, hrange, hinside⟩⟩

/-! ## Operations -/

/-- What can be done to a bus. -/
inductive Operation where
  | map (start last : UInt16) (name : String) (component : Component)
  | read (address : UInt16)
  | write (address : UInt16) (value : UInt8)
  | peek (address : UInt16)
  | peekSpan (start : Int) (length : Nat)
  | reset

namespace Operation

/-- Does it. -/
def perform (operation : Operation) (bus : Bus) : Bus :=
  match operation with
  | map start last name component => bus.mapped start last name component
  | read address => (bus.read address).2
  | write address value => bus.write address value
  | peek _ | peekSpan _ _ => bus
  | reset => bus.reset

/-- Whether an operation only looks at the bus. -/
def looks : Operation → Bool
  | peek _ | peekSpan _ _ => true
  | _ => false

/-- The mapping that an operation adds. -/
def adds? : Operation → Option Mapping
  | map start last name component =>
    if start ≤ last then some ⟨start, last, name, component⟩ else none
  | _ => none

end Operation

/-- The bus after a list of operations. -/
def after (bus : Bus) (operations : List Operation) : Bus :=
  operations.foldl (fun bus operation => operation.perform bus) bus

/-- Operations add mappings behind those that are there, and change contents at most. -/
theorem layout_perform (operation : Operation) (bus : Bus) :
    (operation.perform bus).layout = bus.layout ++ operation.adds?.toList.map Mapping.blank := by
  cases operation with
  | map start last name component =>
    simp only [Operation.perform, layout, mappings_mapped, List.map_append, Operation.adds?]
    split <;> rfl
  | read address => exact (bus.layout_read address).trans (List.append_nil _).symm
  | write address value => exact (bus.layout_write address value).trans (List.append_nil _).symm
  | peek | peekSpan => exact (List.append_nil _).symm
  | reset => exact bus.layout_reset.trans (List.append_nil _).symm

/-- Ranges are mapped in the order of the operations that map them. -/
theorem layout_after (bus : Bus) (operations : List Operation) :
    (bus.after operations).layout =
      bus.layout ++ (operations.filterMap Operation.adds?).map Mapping.blank := by
  induction operations generalizing bus with
  | nil => exact (List.append_nil _).symm
  | cons operation rest ih =>
    have hadded : (operation :: rest).filterMap Operation.adds? =
        operation.adds?.toList ++ rest.filterMap Operation.adds? := by
      rw [List.filterMap_cons]
      cases operation.adds? <;> rfl
    rw [after, List.foldl_cons, hadded, List.map_append, ← List.append_assoc, ← layout_perform]
    exact ih (operation.perform bus)

/-- Looking at a bus has no influence on what comes after. -/
theorem after_filter_not_looks (bus : Bus) (operations : List Operation) :
    bus.after (operations.filter (!·.looks)) = bus.after operations := by
  induction operations generalizing bus with
  | nil => rfl
  | cons operation rest ih =>
    cases hlooks : operation.looks with
    | false =>
      rw [List.filter_cons_of_pos (by simp [hlooks])]
      exact ih (operation.perform bus)
    | true =>
      have hsame : operation.perform bus = bus := by
        cases operation <;> first | rfl | cases hlooks
      rw [List.filter_cons_of_neg (by simp [hlooks]), ih, after, after, List.foldl_cons, hsame]

/-- On an empty bus, what is mapped are ranges. -/
theorem start_le_last_after {capacity : Nat} {operations : List Operation} {mapping : Mapping}
    (h : mapping ∈ ((empty capacity).after operations).mappings) :
    mapping.start ≤ mapping.last := by
  have hblank : mapping.blank ∈ (operations.filterMap Operation.adds?).map Mapping.blank := by
    have hlayout := layout_after (empty capacity) operations
    have hmem : mapping.blank ∈ ((empty capacity).after operations).layout :=
      List.mem_map_of_mem h
    rwa [hlayout] at hmem
  obtain ⟨added, hadded, heq⟩ := List.mem_map.mp hblank
  obtain ⟨operation, -, hadds⟩ := List.mem_filterMap.mp hadded
  have hvalid : added.start ≤ added.last := by
    cases operation with
    | map start last name component =>
      simp only [Operation.adds?, Option.ite_none_right_eq_some, Option.some.injEq] at hadds
      obtain ⟨hle, rfl⟩ := hadds
      exact hle
    | read | write | peek | peekSpan | reset => cases hadds
  have hstart : added.start = mapping.start := (congrArg Mapping.start heq :)
  have hlast : added.last = mapping.last := (congrArg Mapping.last heq :)
  rwa [hstart, hlast] at hvalid

/-- Whatever was done to an empty bus, its mappings are the ranges that were mapped, in this
order, and accesses to an address go to the first that contains it. A read answers as a peek
and changes no bank; a value that is written is found again where RAM has a byte for it; and
what is seen at other addresses of banks stays. Peeks have no influence. A range that is mapped
later gets the addresses that have no mapping yet, and the test for overlaps tells whether all
of its addresses are such. -/
theorem first_mapping_serves (capacity : Nat) (operations : List Operation) :
    let bus := (empty capacity).after operations
    bus.layout = (operations.filterMap Operation.adds?).map Mapping.blank ∧
    (empty capacity).after (operations.filter (!·.looks)) = bus ∧
    (∀ start last, start ≤ last →
      ((bus.mappings.find? (·.overlaps start last)).isSome = true ↔
        ∃ address, (start ≤ address ∧ address ≤ last) ∧
          (bus.serving? address).isSome = true)) ∧
    ∀ address,
      (bus.ReachesNothing address ∨
        ∃ before mapping behind, bus.Reaches address before mapping behind) ∧
      (bus.read address).1 = bus.peek address ∧
      (bus.read address).2.banks = bus.banks ∧
      (∀ value other mapping, bus.serving? other = some mapping →
        mapping.component.bank?.isSome = true → other ≠ address →
        (bus.write address value).peek other = bus.peek other) ∧
      ∀ start last name component,
        (bus.mapped start last name component).serving? address =
          (bus.serving? address).or
            (if start ≤ address ∧ address ≤ last then some ⟨start, last, name, component⟩
            else none) := by
  intro bus
  refine ⟨layout_after (empty capacity) operations, after_filter_not_looks _ _,
    fun start last h => overlaps_iff_serving (fun _ => start_le_last_after) h, fun address => ?_⟩
  refine ⟨reaches_or bus address, fst_read bus address, banks_read bus address, ?_,
    fun start last name component => serving?_mapped bus start last name component address⟩
  intro value other mapping hserving hbank hne
  exact peek_write_of_ne hne hserving hbank value

/-- RAM that is shorter than its range, ROM of which it hides a part, and an adapter of which
ROM hides a part; and a byte that is written. -/
def overlappingRanges : List Operation :=
  [.map 0x00 0xFF "ram" (.ram (.zeros "ram" 0x00 0x80 "ram")),
    .map 0x40 0x1F7 "rom" (.rom ⟨"rom", 0x40, Array.replicate 0x1B8 0x60, "rom"⟩),
    .map 0x1F0 0x2FF "pia" (.pia (.initial "pia")),
    .map 0x300 0x2FF "none" (.pia (.initial "none")),
    .write 0x10 0x42]

/-- The byte is found, a write to ROM leaves it, and a range over all of this is reported as
hidden in part. -/
theorem first_mapping_serves_overlapping :
    let bus := (empty 16).after overlappingRanges
    (bus.read 0x10).1 = 0x42 ∧ (bus.write 0x1F4 7).peek 0x10 = bus.peek 0x10 ∧
      (bus.mappings.find? (·.overlaps 0x2F0 0x3FF)).isSome = true := by
  intro bus
  obtain ⟨-, -, hoverlaps, haccess⟩ := first_mapping_serves 16 overlappingRanges
  have hserving : (bus.serving? 0x10).map (·.component.bank?.isSome) = some true := by
    decide +kernel
  obtain ⟨mapping, hfound, hbank⟩ := Option.map_eq_some_iff.mp hserving
  obtain ⟨-, hread, -⟩ := haccess 0x10
  obtain ⟨-, -, -, hstays, -⟩ := haccess 0x1F4
  refine ⟨hread.trans (by decide +kernel), hstays 7 0x10 mapping hfound hbank (by decide), ?_⟩
  exact (hoverlaps 0x2F0 0x3FF (by decide)).mpr ⟨0x2F0, by decide, by decide +kernel⟩

end Bus

end AppleOne
