import AppleOne.Proofs.Bus.Access

/-!
# The layout of the bus

The contents of banks and the ports of the adapter change; which mappings there are, where
they lie, and which banks of which size they hold does not. The layout of a bus is what is
left of its mappings when all contents are blanked, and no operation changes it.

Acting on the bank with an id, or on the adapter, is acting on every mapping that holds
it, since no two mappings hold the same.

## Main definitions

* `Mapping.blank` and `Bus.layout`.
* `Mapping.bankId?`, `Mapping.adapter?`: the parts that are found by what they are.
* `Mapping.DistinctBanks`, `Mapping.Distinct`: no two mappings hold the same.
* `Mapping.Settled`: the strobe is down.

## Main results

* `Bus.layout_read`, `Bus.layout_write`, `Bus.layout_onPia`, `Bus.layout_onBank`,
  `Bus.layout_reset`: the layout stays.
* `Bus.onFirst_eq_map`: acting on a part is acting on every mapping that holds it.
* `Bus.pia?_onPia`, `Bus.mappings_onPia`: acting on the adapter.
* `Bus.settled_onPia`, `Bus.settled_onPia_of_lowers`: what keeps and puts the strobe down.
-/

namespace AppleOne

/-! ## Blanks -/

/-- A component without its contents. -/
def Component.blank : Component → Component
  | ram bank => ram bank.clear
  | rom bank => rom bank.clear
  | pia adapter => pia (.initial adapter.source)

/-- A mapping without its contents. -/
def Mapping.blank (mapping : Mapping) : Mapping :=
  mapping.onComponent fun _ component => component.blank

namespace Bank

theorem clear_of_size_eq {bank : Bank} {data : Array UInt8} (h : data.size = bank.data.size) :
    ({ bank with data } : Bank).clear = bank.clear := by
  simp only [clear, size, h]

@[simp] theorem clear_store (bank : Bank) (offset : UInt16) (value : UInt8) :
    (bank.store offset value).1.clear = bank.clear := by
  unfold store
  split
  · exact clear_of_size_eq (by simp)
  · rfl

theorem size_overlay (data : Array UInt8) (base : Int) (stored : Nat) (bytes : List UInt8) :
    (overlay data base stored bytes).2.size = data.size := by
  induction bytes generalizing data base stored with
  | nil => rfl
  | cons byte rest ih =>
    unfold overlay
    split
    · rw [ih]
      simp
    · exact ih data (base + 1) stored

@[simp] theorem clear_overlayAt (bank : Bank) (address : UInt16) (bytes : List UInt8) :
    (bank.overlayAt address bytes).2.1.clear = bank.clear :=
  clear_of_size_eq (size_overlay _ _ _ _)

@[simp] theorem clear_flash (bank : Bank) (payload : List UInt8) :
    (bank.flash payload).2.1.clear = bank.clear := by
  unfold flash
  split
  · next low high byte bytes =>
    exact clear_overlayAt bank (high.toUInt16 <<< 8 ||| low.toUInt16) (byte :: bytes)
  · rfl

@[simp] theorem clear_flashJson (bank : Bank) (payload : List Json) :
    (bank.flashJson payload).2.1.clear = bank.clear := by
  unfold flashJson
  split
  · rfl
  · exact clear_flash _ _

theorem length_fit (size : Nat) (bytes : List UInt8) : (fit size bytes).length = size := by
  simp only [fit, List.length_append, List.length_take, List.length_replicate]
  omega

@[simp] theorem clear_fillFrom (bank : Bank) (image : List UInt8) :
    (bank.fillFrom image).1.clear = bank.clear := by
  have hsize : (fit bank.size image).toArray.size = bank.data.size := by
    simp [length_fit, size]
  unfold fillFrom
  simp only
  split
  · exact clear_of_size_eq hsize
  · exact clear_of_size_eq hsize

end Bank

namespace Component

@[simp] theorem blank_read (component : Component) (offset : UInt16) :
    (component.read offset).2.1.blank = component.blank := by
  cases component with
  | ram bank => rfl
  | rom bank => rfl
  | pia adapter =>
    simp only [read, Pia.read]
    split <;> rfl

@[simp] theorem blank_write (component : Component) (offset : UInt16) (value : UInt8) :
    (component.write offset value).1.blank = component.blank := by
  cases component with
  | ram bank => exact congrArg ram (Bank.clear_store bank offset value)
  | rom bank => rfl
  | pia adapter =>
    simp only [write, Pia.write]
    split <;> rfl

@[simp] theorem blank_reset (component : Component) :
    component.reset.1.blank = component.blank := by
  cases component <;> rfl

end Component

namespace Bus

/-- The mappings without their contents. -/
def layout (bus : Bus) : List Mapping := bus.mappings.map Mapping.blank

variable {α : Type} {qualifies : Mapping → Bool} {action : UInt16 → Component → α × Component}

theorem blank_onFirst (h : ∀ start component, (action start component).2.blank = component.blank)
    (mappings : List Mapping) :
    (onFirst qualifies action mappings).2.map Mapping.blank = mappings.map Mapping.blank := by
  induction mappings with
  | nil => rfl
  | cons mapping rest ih =>
    cases hqualifies : qualifies mapping with
    | true =>
      rw [onFirst_cons_of_qualifies action hqualifies, List.map_cons, List.map_cons]
      exact congrArg (· :: rest.map Mapping.blank)
        (congrArg (Mapping.mk mapping.start mapping.last mapping.name) (h _ _))
    | false =>
      rw [onFirst_cons_of_not_qualifies action hqualifies, List.map_cons, List.map_cons, ih]

variable (bus : Bus)

theorem layout_read (address : UInt16) : (bus.read address).2.layout = bus.layout := by
  simp only [layout, read, mappings_reportAny]
  exact blank_onFirst (fun _ component => component.blank_read _) _

theorem layout_write (address : UInt16) (value : UInt8) :
    (bus.write address value).layout = bus.layout := by
  simp only [layout, write, mappings_reportAny]
  exact blank_onFirst (fun _ component => component.blank_write _ _) _

/-- An action on the adapter that leaves its source leaves the layout. -/
theorem layout_onPia (act : Pia → α × Pia)
    (h : ∀ adapter, (act adapter).2.source = adapter.source) :
    (bus.onPia act).2.layout = bus.layout := by
  refine blank_onFirst (fun _ component => ?_) _
  cases component with
  | ram _ | rom _ => rfl
  | pia adapter => exact congrArg (Component.pia ∘ Pia.initial) (h adapter)

/-- The mappings depend on what becomes of the component, not on what is answered. -/
theorem onFirst_congr {β : Type} {action' : UInt16 → Component → β × Component}
    (h : ∀ start component, (action start component).2 = (action' start component).2)
    (mappings : List Mapping) :
    (onFirst qualifies action mappings).2 = (onFirst qualifies action' mappings).2 := by
  induction mappings with
  | nil => rfl
  | cons mapping rest ih =>
    cases hqualifies : qualifies mapping with
    | true =>
      rw [onFirst_cons_of_qualifies action hqualifies, onFirst_cons_of_qualifies action' hqualifies]
      exact congrArg (· :: rest)
        (congrArg (Mapping.mk mapping.start mapping.last mapping.name) (h _ _))
    | false =>
      rw [onFirst_cons_of_not_qualifies action hqualifies,
        onFirst_cons_of_not_qualifies action' hqualifies, ih]

theorem mappings_onBank (id : String) (act : Bank → α × Bank × List Note) :
    (bus.onBank id act).2.mappings =
      (onFirst (holdsBank id) (fun _ component =>
        ((), component.mapBank fun bank => (act bank).2.1)) bus.mappings).2 := by
  unfold onBank
  simp only
  -- the answer decides what is reported, but not what becomes of the mappings
  split
  · refine onFirst_congr (fun _ component => ?_) bus.mappings
    cases component <;> rfl
  · refine onFirst_congr (fun _ component => ?_) bus.mappings
    cases component <;> rfl

/-- An action on a bank that leaves everything but its bytes leaves the layout. -/
theorem layout_onBank (id : String) (act : Bank → α × Bank × List Note)
    (h : ∀ bank, (act bank).2.1.clear = bank.clear) :
    (bus.onBank id act).2.layout = bus.layout := by
  rw [layout, mappings_onBank]
  refine blank_onFirst (fun _ component => ?_) _
  cases component with
  | ram bank => exact congrArg Component.ram (h bank)
  | rom bank => exact congrArg Component.rom (h bank)
  | pia _ => rfl

theorem resetMappings_eq (mappings : List Mapping) :
    (resetMappings mappings).1 =
      mappings.map (·.onComponent fun _ component => component.reset.1) := by
  induction mappings with
  | nil => rfl
  | cons mapping rest ih => exact congrArg _ ih

theorem layout_reset : bus.reset.layout = bus.layout := by
  simp only [layout, reset, resetMappings_eq, List.map_map]
  refine List.map_congr_left fun mapping _ => ?_
  exact congrArg (Mapping.mk mapping.start mapping.last mapping.name)
    mapping.component.blank_reset

end Bus

/-! ## Parts that are found by what they are -/

namespace Mapping

/-- The id of the bank in a mapping. -/
def bankId? (mapping : Mapping) : Option String :=
  mapping.component.bank?.map (·.id)

/-- The adapter in a mapping. -/
def adapter? (mapping : Mapping) : Option Pia :=
  match mapping.component with
  | .pia adapter => some adapter
  | _ => none

@[simp] theorem bankId?_blank (mapping : Mapping) : mapping.blank.bankId? = mapping.bankId? := by
  obtain ⟨start, last, name, component⟩ := mapping
  cases component <;> rfl

/-- No two mappings hold banks with the same id, and no two hold an adapter. -/
structure Distinct (mappings : List Mapping) : Prop where
  banks : mappings.Pairwise fun first second =>
    ∀ id, first.bankId? = some id → second.bankId? ≠ some id
  adapters : mappings.Pairwise fun first second =>
    Bus.holdsPia first = true → Bus.holdsPia second = false

theorem holdsBank_iff {id : String} {mapping : Mapping} :
    Bus.holdsBank id mapping = true ↔ mapping.bankId? = some id := by
  unfold Bus.holdsBank bankId?
  cases mapping.component.bank? <;> simp

@[simp] theorem holdsPia_blank (mapping : Mapping) :
    Bus.holdsPia mapping.blank = Bus.holdsPia mapping := by
  obtain ⟨start, last, name, component⟩ := mapping
  cases component <;> rfl

/-- No two mappings hold banks with the same id. -/
def DistinctBanks (mappings : List Mapping) : Prop :=
  mappings.Pairwise fun first second => ∀ id, first.bankId? = some id → second.bankId? ≠ some id

/-- Whether banks have distinct ids is a matter of the layout. -/
theorem distinctBanks_of_blank {first second : List Mapping}
    (h : first.map blank = second.map blank) (hfirst : DistinctBanks first) :
    DistinctBanks second := by
  unfold DistinctBanks at hfirst ⊢
  have hblank : (second.map blank).Pairwise fun first second =>
      ∀ id, first.bankId? = some id → second.bankId? ≠ some id := by
    rw [← h, List.pairwise_map]
    simpa only [bankId?_blank] using hfirst
  simpa only [List.pairwise_map, bankId?_blank] using hblank

/-- Whether parts are distinct is a matter of the layout. -/
theorem distinct_of_blank {first second : List Mapping}
    (h : first.map blank = second.map blank) (hfirst : Distinct first) : Distinct second := by
  have hadapters : (second.map blank).Pairwise fun first second =>
      Bus.holdsPia first = true → Bus.holdsPia second = false := by
    rw [← h, List.pairwise_map]
    simpa only [holdsPia_blank] using hfirst.adapters
  constructor
  · exact distinctBanks_of_blank h hfirst.banks
  · simpa only [List.pairwise_map, holdsPia_blank] using hadapters

end Mapping

/-- Changes the adapter of a component that is one. -/
def Component.mapPia (f : Pia → Pia) : Component → Component
  | pia adapter => pia (f adapter)
  | other => other

namespace Bus

variable {α : Type} {qualifies : Mapping → Bool}

/-- If no two mappings qualify, acting on the first that does is acting on all that do. -/
theorem onFirst_eq_map (action : UInt16 → Component → α × Component) {mappings : List Mapping}
    (h : mappings.Pairwise fun first second => qualifies first = true → qualifies second = false) :
    (onFirst qualifies action mappings).2 = mappings.map fun mapping =>
      if qualifies mapping then
        mapping.onComponent fun start component => (action start component).2
      else mapping := by
  induction mappings with
  | nil => rfl
  | cons mapping rest ih =>
    obtain ⟨hfirst, hrest⟩ := List.pairwise_cons.mp h
    cases hqualifies : qualifies mapping with
    | true =>
      -- nothing behind the first mapping qualifies, so nothing there is changed
      have hsame : rest.map (fun mapping => if qualifies mapping then
          mapping.onComponent fun start component => (action start component).2
          else mapping) = rest := by
        refine (List.map_congr_left fun other hother => ?_).trans (List.map_id' rest)
        rw [if_neg (by simp [hfirst other hother hqualifies])]
      rw [onFirst_cons_of_qualifies action hqualifies, List.map_cons, if_pos hqualifies, hsame]
    | false =>
      rw [onFirst_cons_of_not_qualifies action hqualifies, List.map_cons,
        if_neg (by simp [hqualifies]), ih hrest]

/-- An action on the adapter changes the mapping that holds it. -/
theorem mappings_onPia {bus : Bus} (hdistinct : Mapping.Distinct bus.mappings)
    (act : Pia → α × Pia) :
    (bus.onPia act).2.mappings =
      bus.mappings.map (·.onComponent fun _ component => component.mapPia fun adapter =>
        (act adapter).2) := by
  refine (onFirst_eq_map _ hdistinct.adapters).trans (List.map_congr_left fun mapping _ => ?_)
  obtain ⟨start, last, name, component⟩ := mapping
  cases component <;> rfl

theorem pia?_eq (bus : Bus) : bus.pia? = bus.mappings.findSome? Mapping.adapter? := rfl

/-- The adapter answers, and it alone is changed. -/
theorem pia?_onPia (bus : Bus) (act : Pia → α × Pia) :
    (bus.onPia act).1 = bus.pia?.map (fun adapter => (act adapter).1) ∧
      (bus.onPia act).2.pia? = bus.pia?.map (fun adapter => (act adapter).2) := by
  obtain ⟨mappings, lastRead, lastWrite, log⟩ := bus
  simp only [onPia, pia?_eq]
  induction mappings with
  | nil => exact ⟨rfl, rfl⟩
  | cons mapping rest ih =>
    obtain ⟨start, last, name, component⟩ := mapping
    cases component with
    | pia adapter => exact ⟨rfl, rfl⟩
    | ram bank => exact ih
    | rom bank => exact ih

/-- The adapter of a mapping is the only one. -/
theorem findSome?_adapter? {mappings : List Mapping} {mapping : Mapping} {adapter : Pia}
    (hpairs : mappings.Pairwise fun first second =>
      holdsPia first = true → holdsPia second = false)
    (hmem : mapping ∈ mappings) (hadapter : mapping.component = .pia adapter) :
    mappings.findSome? Mapping.adapter? = some adapter := by
  induction mappings with
  | nil => cases hmem
  | cons first rest ih =>
    obtain ⟨hfirst, hrest⟩ := List.pairwise_cons.mp hpairs
    rcases List.mem_cons.mp hmem with rfl | hmem
    · simp [Mapping.adapter?, hadapter]
    · -- the mapping lies further back, so the first one holds no adapter
      have hholds : holdsPia mapping = true := by simp [holdsPia, hadapter]
      have hfirstHolds : holdsPia first ≠ true := fun h => by
        simp [hfirst mapping hmem h] at hholds
      have hnone : first.adapter? = none := by
        obtain ⟨start, last, name, component⟩ := first
        cases component with
        | pia other => exact absurd rfl hfirstHolds
        | ram _ | rom _ => rfl
      rw [List.findSome?_cons, hnone]
      exact ih hrest hmem

/-- The adapter of a mapping is the adapter of the bus. -/
theorem pia?_of_mem {bus : Bus} {mapping : Mapping} {adapter : Pia}
    (hdistinct : Mapping.Distinct bus.mappings) (hmem : mapping ∈ bus.mappings)
    (hadapter : mapping.component = .pia adapter) : bus.pia? = some adapter :=
  findSome?_adapter? hdistinct.adapters hmem hadapter

end Bus

/-! ## The strobe -/

/-- Whether the display has something to take. -/
def Component.strobe : Component → Bool
  | pia adapter => adapter.strobe
  | _ => false

/-- The display has taken whatever was written to port B. -/
def Mapping.Settled (mappings : List Mapping) : Prop :=
  ∀ mapping ∈ mappings, mapping.component.strobe = false

namespace Bus

variable {α : Type} {bus : Bus}

/-- An action on a component that keeps the strobe down. -/
theorem settled_onFirst {qualifies : Mapping → Bool} {action : UInt16 → Component → α × Component}
    (h : ∀ start component, component.strobe = false → (action start component).2.strobe = false)
    {mappings : List Mapping} (hsettled : Mapping.Settled mappings) :
    Mapping.Settled (onFirst qualifies action mappings).2 := by
  induction mappings with
  | nil => exact hsettled
  | cons first rest ih =>
    obtain ⟨hfirst, hrest⟩ := List.forall_mem_cons.mp hsettled
    cases hqualifies : qualifies first with
    | true =>
      rw [onFirst_cons_of_qualifies action hqualifies]
      exact List.forall_mem_cons.mpr ⟨h first.start first.component hfirst, hrest⟩
    | false =>
      rw [onFirst_cons_of_not_qualifies action hqualifies]
      exact List.forall_mem_cons.mpr ⟨hfirst, ih hrest⟩

/-- A read leaves the strobe as it is. -/
theorem settled_read (h : Mapping.Settled bus.mappings) (address : UInt16) :
    Mapping.Settled (bus.read address).2.mappings := by
  simp only [read, mappings_reportAny]
  refine settled_onFirst (fun start component hcomponent => ?_) h
  cases component with
  | ram _ | rom _ => rfl
  | pia adapter =>
    have hread (offset : UInt16) : (adapter.read offset).2.strobe = adapter.strobe := by
      unfold Pia.read
      split <;> rfl
    exact (hread _).trans hcomponent

/-- An action on the adapter that keeps the strobe down. -/
theorem settled_onPia (h : Mapping.Settled bus.mappings) (act : Pia → α × Pia)
    (hact : ∀ adapter, adapter.strobe = false → (act adapter).2.strobe = false) :
    Mapping.Settled (bus.onPia act).2.mappings := by
  refine settled_onFirst (fun start component hcomponent => ?_) h
  cases component with
  | ram _ | rom _ => rfl
  | pia adapter => exact hact adapter hcomponent

/-- An action on the adapter that puts the strobe down, whatever it was. There must be no
other adapter, since only the first one is acted on. -/
theorem settled_onPia_of_lowers (hdistinct : Mapping.Distinct bus.mappings) (act : Pia → α × Pia)
    (hact : ∀ adapter, (act adapter).2.strobe = false) :
    Mapping.Settled (bus.onPia act).2.mappings := by
  rw [mappings_onPia hdistinct]
  intro mapping hmem
  obtain ⟨⟨start, last, name, component⟩, -, rfl⟩ := List.mem_map.mp hmem
  cases component with
  | ram _ | rom _ => rfl
  | pia adapter => exact hact adapter

/-- Banks have no strobe. -/
theorem settled_onBank (h : Mapping.Settled bus.mappings) (id : String)
    (act : Bank → α × Bank × List Note) :
    Mapping.Settled (bus.onBank id act).2.mappings := by
  rw [mappings_onBank]
  refine settled_onFirst (fun start component hcomponent => ?_) h
  cases component with
  | ram _ | rom _ => rfl
  | pia adapter => exact hcomponent

/-- The reset line puts the strobe down. -/
theorem settled_reset (bus : Bus) : Mapping.Settled bus.reset.mappings := by
  simp only [reset, resetMappings_eq]
  intro mapping hmem
  obtain ⟨⟨start, last, name, component⟩, -, rfl⟩ := List.mem_map.mp hmem
  cases component <;> rfl

end Bus

end AppleOne
