import AppleOne.Bus
import Mathlib.Tactic.Common

/-!
# Accesses to the bus

An access concerns the mapping that serves its address and no other. What the bus answers
is what the component of that mapping answers, and which mapping serves an address never
changes; only the component of the one that was accessed may.

## Main definitions

* `Mapping.onComponent`: a mapping with its component changed.

## Main results

* `Bus.answer_onFirst`, `Bus.find?_onFirst`: acting on the first mapping that qualifies.
* `Bus.read_value`, `Bus.serving?_read`, `Bus.serving?_write`: reads and writes.
-/

namespace AppleOne

namespace Mapping

/-- Changes the component of a mapping; the change is told where the range starts. -/
def onComponent (mapping : Mapping) (change : UInt16 → Component → Component) : Mapping :=
  { mapping with component := change mapping.start mapping.component }

variable {mapping : Mapping} {address : UInt16} {rest : List Mapping}

theorem find?_contains_cons_of_pos (h : mapping.contains address = true) :
    (mapping :: rest).find? (·.contains address) = some mapping := by
  simp [h]

theorem find?_contains_cons_of_neg (h : mapping.contains address = false) :
    (mapping :: rest).find? (·.contains address) = rest.find? (·.contains address) := by
  simp [h]

theorem contains_of_find? (h : rest.find? (·.contains address) = some mapping) :
    mapping.contains address = true :=
  List.find?_some (p := fun mapping : Mapping => mapping.contains address) h

end Mapping

namespace Bus

open Mapping

section OnFirst

variable {α : Type} (qualifies : Mapping → Bool) (action : UInt16 → Component → α × Component)

variable {qualifies} in
theorem onFirst_cons_of_qualifies {mapping : Mapping} (h : qualifies mapping = true)
    (rest : List Mapping) :
    onFirst qualifies action (mapping :: rest) =
      (some (action mapping.start mapping.component).1,
        mapping.onComponent (fun start component => (action start component).2) :: rest) := by
  simp only [onFirst, h, if_true]
  rfl

variable {qualifies} in
theorem onFirst_cons_of_not_qualifies {mapping : Mapping} (h : qualifies mapping = false)
    (rest : List Mapping) :
    onFirst qualifies action (mapping :: rest) =
      ((onFirst qualifies action rest).1, mapping :: (onFirst qualifies action rest).2) := by
  simp only [onFirst, h, Bool.false_eq_true, if_false]

/-- The answer is that of the first mapping that qualifies. -/
theorem answer_onFirst (mappings : List Mapping) :
    (onFirst qualifies action mappings).1 =
      (mappings.find? qualifies).map fun mapping => (action mapping.start mapping.component).1 := by
  induction mappings with
  | nil => rfl
  | cons mapping rest ih =>
    cases h : qualifies mapping with
    | true => rw [onFirst_cons_of_qualifies action h, List.find?_cons_of_pos h, Option.map_some]
    | false =>
      rw [onFirst_cons_of_not_qualifies action h, List.find?_cons_of_neg (by simp [h])]
      exact ih

/-- Only the mapping that served the accessed address is changed, for all the addresses
that it serves. -/
theorem find?_onFirst (accessed address : UInt16) (mappings : List Mapping) :
    (onFirst (·.contains accessed) action mappings).2.find? (·.contains address) =
      if mappings.find? (·.contains address) = mappings.find? (·.contains accessed) then
        (mappings.find? (·.contains address)).map
          (·.onComponent fun start component => (action start component).2)
      else mappings.find? (·.contains address) := by
  induction mappings with
  | nil => rfl
  | cons mapping rest ih =>
    -- four cases, by which of the two addresses the first mapping serves
    cases haccessed : mapping.contains accessed with
    | true =>
      rw [onFirst_cons_of_qualifies action haccessed]
      cases haddress : mapping.contains address with
      | true =>
        rw [find?_contains_cons_of_pos haddress, find?_contains_cons_of_pos haccessed, if_pos rfl,
          Option.map_some]
        exact find?_contains_cons_of_pos haddress
      | false =>
        have hrest : rest.find? (·.contains address) ≠ some mapping := fun h =>
          Bool.false_ne_true (haddress.symm.trans (contains_of_find? h))
        rw [find?_contains_cons_of_neg haddress, find?_contains_cons_of_pos haccessed,
          if_neg hrest]
        exact find?_contains_cons_of_neg haddress
    | false =>
      rw [onFirst_cons_of_not_qualifies action haccessed]
      cases haddress : mapping.contains address with
      | true =>
        have hrest : some mapping ≠ rest.find? (·.contains accessed) := fun h =>
          Bool.false_ne_true (haccessed.symm.trans (contains_of_find? h.symm))
        rw [find?_contains_cons_of_pos haddress, find?_contains_cons_of_pos haddress,
          find?_contains_cons_of_neg haccessed, if_neg hrest]
      | false =>
        rw [find?_contains_cons_of_neg haddress, find?_contains_cons_of_neg haddress,
          find?_contains_cons_of_neg haccessed, ih]

end OnFirst

variable (bus : Bus) (accessed address : UInt16) (value : UInt8)

@[simp] theorem mappings_report (note : Note) : (bus.report note).mappings = bus.mappings := rfl

@[simp] theorem mappings_reportAny (note : Option Note) :
    (bus.reportAny note).mappings = bus.mappings := by
  cases note <;> rfl

/-- The byte read at an address is the one that its component reads. -/
theorem read_value :
    (bus.read address).1 =
      match bus.serving? address with
      | some mapping => (mapping.component.read (address - mapping.start)).1
      | none => 0 := by
  unfold read serving?
  simp only [answer_onFirst]
  cases bus.mappings.find? (·.contains address) <;> rfl

/-- A read changes the component of the mapping that serves its address. -/
theorem serving?_read :
    (bus.read accessed).2.serving? address =
      if bus.serving? address = bus.serving? accessed then
        (bus.serving? address).map (·.onComponent fun start component =>
          (component.read (accessed - start)).2.1)
      else bus.serving? address := by
  simp only [read, serving?, mappings_reportAny]
  exact find?_onFirst _ accessed address bus.mappings

/-- A write changes the component of the mapping that serves its address. -/
theorem serving?_write :
    (bus.write accessed value).serving? address =
      if bus.serving? address = bus.serving? accessed then
        (bus.serving? address).map (·.onComponent fun start component =>
          (component.write (accessed - start) value).1)
      else bus.serving? address := by
  simp only [write, serving?, mappings_reportAny]
  exact find?_onFirst _ accessed address bus.mappings

end Bus

end AppleOne
