import AppleOne.Machine.Basic
import AppleOne.Proofs.Bus.Layout

/-!
# Restoring a machine

A snapshot is put into a machine mapping by mapping: an image goes into the bank with its
id, one image after the other, and the ports go into the adapter. If both machines have
the same layout and the snapshot was taken when the display had nothing to take, nothing
of the mappings is lost on the way.

## Main definitions

* `Mapping.fill`, `Mapping.restorePorts`: what a restore does to a mapping.

## Main results

* `Bus.mappings_foldl_fillBank`: filling banks as a change of mappings.
* `Machine.mappings_restore_snapshot`: restoring what was saved.
-/

namespace AppleOne

/-! ## A restore as a change of mappings -/

namespace Mapping

/-- Puts an image into a mapping that holds the bank for it. -/
def fill (mapping : Mapping) (image : Bank.Image) : Mapping :=
  if Bus.holdsBank image.id mapping then
    mapping.onComponent fun _ component =>
      component.mapBank fun bank => (bank.fillFrom image.data).1
  else mapping

/-- Puts the ports into a mapping that holds the adapter. -/
def restorePorts (state : Pia.State) (mapping : Mapping) : Mapping :=
  mapping.onComponent fun _ component => component.mapPia (·.restore state)

@[simp] theorem blank_fill (mapping : Mapping) (image : Bank.Image) :
    (mapping.fill image).blank = mapping.blank := by
  unfold fill
  split
  · obtain ⟨start, last, name, component⟩ := mapping
    cases component with
    | ram bank =>
      exact congrArg (fun bank => Mapping.mk start last name (.ram bank))
        (Bank.clear_fillFrom bank image.data)
    | rom bank =>
      exact congrArg (fun bank => Mapping.mk start last name (.rom bank))
        (Bank.clear_fillFrom bank image.data)
    | pia _ => rfl
  · rfl

@[simp] theorem blank_foldl_fill (images : List Bank.Image) (mapping : Mapping) :
    (images.foldl fill mapping).blank = mapping.blank := by
  induction images generalizing mapping with
  | nil => rfl
  | cons image rest ih => exact (ih (mapping.fill image)).trans (mapping.blank_fill image)

end Mapping

namespace Bus

variable {bus : Bus}

/-- Filling a bank is an action on it. -/
theorem mappings_fillBank_eq_onBank (bus : Bus) (image : Bank.Image) :
    (Machine.fillBank bus image).mappings =
      (bus.onBank image.id fun bank =>
        ((), (bank.fillFrom image.data).1, (bank.fillFrom image.data).2.toList)).2.mappings := by
  unfold Machine.fillBank
  split
  · next h => rw [h]
  · next h =>
    rw [mappings_report, h]

/-- Filling a bank changes the mapping that holds it. -/
theorem mappings_fillBank (hbanks : Mapping.DistinctBanks bus.mappings) (image : Bank.Image) :
    (Machine.fillBank bus image).mappings = bus.mappings.map (·.fill image) := by
  have hholds : bus.mappings.Pairwise fun first second =>
      holdsBank image.id first = true → holdsBank image.id second = false := by
    refine List.Pairwise.imp (fun {first second} hne hfirst => Bool.eq_false_iff.mpr ?_) hbanks
    intro hsecond
    exact hne image.id (Mapping.holdsBank_iff.mp hfirst) (Mapping.holdsBank_iff.mp hsecond)
  rw [mappings_fillBank_eq_onBank, mappings_onBank, onFirst_eq_map _ hholds]
  rfl

theorem layout_fillBank (bus : Bus) (image : Bank.Image) :
    (Machine.fillBank bus image).layout = bus.layout := by
  rw [layout, mappings_fillBank_eq_onBank]
  exact bus.layout_onBank image.id _ fun bank => bank.clear_fillFrom image.data

theorem layout_foldl_fillBank (bus : Bus) (images : List Bank.Image) :
    (images.foldl Machine.fillBank bus).layout = bus.layout := by
  induction images generalizing bus with
  | nil => rfl
  | cons image rest ih => exact (ih _).trans (layout_fillBank bus image)

/-- Filling banks one after the other changes every mapping by itself. -/
theorem mappings_foldl_fillBank (hbanks : Mapping.DistinctBanks bus.mappings)
    (images : List Bank.Image) :
    (images.foldl Machine.fillBank bus).mappings =
      bus.mappings.map fun mapping => images.foldl Mapping.fill mapping := by
  induction images generalizing bus with
  | nil => exact (List.map_id' bus.mappings).symm
  | cons image rest ih =>
    have hfilled := mappings_fillBank hbanks image
    have hbanks' := Mapping.distinctBanks_of_blank (layout_fillBank bus image).symm hbanks
    rw [List.foldl_cons, ih hbanks', hfilled, List.map_map]
    rfl

end Bus

/-! ## Restoring what was saved -/

namespace Bank

theorem fit_of_length_eq {size : Nat} {bytes : List UInt8} (h : bytes.length = size) :
    fit size bytes = bytes := by
  subst h
  simp [fit]

/-- A bank that is filled with the image of a bank of its layout is that bank. -/
theorem fillFrom_image {bank other : Bank} (h : other.clear = bank.clear) :
    (other.fillFrom bank.image.data).1 = bank := by
  obtain ⟨id, origin, data, source⟩ := bank
  obtain ⟨id', origin', data', source'⟩ := other
  simp only [clear, mk.injEq] at h
  obtain ⟨rfl, rfl, hdata, rfl⟩ := h
  have hsize : data'.size = data.size := by simpa [size] using congrArg Array.size hdata
  have hfit : fit data'.size data.toList = data.toList := fit_of_length_eq (by simp [hsize])
  simp only [fillFrom, image, size, hfit]
  split <;> rfl

end Bank

namespace Mapping

/-- Images for other banks leave a mapping as it is. -/
theorem foldl_fill_of_ne {mapping : Mapping} {images : List Bank.Image}
    (h : ∀ image ∈ images, mapping.bankId? ≠ some image.id) :
    images.foldl fill mapping = mapping := by
  induction images with
  | nil => rfl
  | cons image rest ih =>
    have hne : ¬ Bus.holdsBank image.id mapping = true := fun hholds =>
      h image List.mem_cons_self (holdsBank_iff.mp hholds)
    have hfill : mapping.fill image = mapping := if_neg hne
    rw [List.foldl_cons, hfill]
    exact ih fun other hother => h other (List.mem_cons_of_mem _ hother)

/-- The images of a list of mappings. -/
def images (mappings : List Mapping) : List Bank.Image :=
  (mappings.filterMap (·.component.bank?)).map Bank.image

theorem bankId?_of_mem_images {mappings : List Mapping} {image : Bank.Image}
    (h : image ∈ images mappings) : ∃ mapping ∈ mappings, mapping.bankId? = some image.id := by
  obtain ⟨bank, hbank, rfl⟩ := List.mem_map.mp h
  obtain ⟨mapping, hmem, hcomponent⟩ := List.mem_filterMap.mp hbank
  exact ⟨mapping, hmem, by simp [bankId?, hcomponent, Bank.image]⟩

/-- All images of some mappings together put one of the mappings back. -/
theorem foldl_fill_images {mappings : List Mapping} {mapping other : Mapping}
    (hdistinct : Distinct mappings) (hmem : mapping ∈ mappings)
    (hblank : other.blank = mapping.blank) (hbank : mapping.component.bank?.isSome = true) :
    (images mappings).foldl fill other = mapping := by
  obtain ⟨bank, hbank⟩ := Option.isSome_iff_exists.mp hbank
  obtain ⟨before, after, rfl⟩ := List.append_of_mem hmem
  -- of all images only the one of this mapping is for its bank
  have himages : images (before ++ mapping :: after) =
      images before ++ bank.image :: images after := by
    simp [images, hbank]
  have hid : mapping.bankId? = some bank.image.id := by simp [bankId?, hbank, Bank.image]
  have hotherId : other.bankId? = some bank.image.id := by
    rw [← bankId?_blank, hblank, bankId?_blank, hid]
  obtain ⟨-, hafter, hbefore⟩ := List.pairwise_append.mp hdistinct.banks
  have hbefore' : ∀ image ∈ images before, other.bankId? ≠ some image.id := by
    intro image himage hsame
    obtain ⟨earlier, hearlier, hearlierId⟩ := bankId?_of_mem_images himage
    refine hbefore earlier hearlier mapping List.mem_cons_self image.id hearlierId ?_
    rw [hid, ← hotherId, hsame]
  have hfill : other.fill bank.image = mapping := by
    rw [fill, if_pos (holdsBank_iff.mpr hotherId)]
    obtain ⟨start, last, name, component⟩ := mapping
    obtain ⟨start', last', name', component'⟩ := other
    simp only [blank, onComponent, mk.injEq] at hblank
    obtain ⟨rfl, rfl, rfl, hcomponent⟩ := hblank
    cases component <;> cases component' <;>
      simp only [Component.blank, reduceCtorEq, Component.ram.injEq, Component.rom.injEq]
        at hcomponent <;>
      simp only [Component.bank?, Option.some.injEq, reduceCtorEq] at hbank
    all_goals
      subst hbank
      simp only [onComponent, Component.mapBank, Bank.fillFrom_image hcomponent]
  have hafter' : ∀ image ∈ images after, mapping.bankId? ≠ some image.id := by
    intro image himage hsame
    obtain ⟨later, hlater, hlaterId⟩ := bankId?_of_mem_images himage
    exact (List.pairwise_cons.mp hafter).1 later hlater image.id hsame hlaterId
  rw [himages, List.foldl_append, foldl_fill_of_ne hbefore', List.foldl_cons, hfill,
    foldl_fill_of_ne hafter']

/-- A restore of the ports leaves a bank as it is. -/
theorem restorePorts_of_bank {mapping : Mapping} {state : Pia.State}
    (h : mapping.component.bank?.isSome = true) : mapping.restorePorts state = mapping := by
  obtain ⟨start, last, name, component⟩ := mapping
  cases component with
  | ram _ | rom _ => rfl
  | pia _ => cases h

/-- An adapter with the strobe down is put back from its ports. -/
theorem restorePorts_of_adapter {mapping other : Mapping} {adapter : Pia}
    (hadapter : mapping.component = .pia adapter) (hblank : other.blank = mapping.blank)
    (hstrobe : adapter.strobe = false) : other.restorePorts adapter.state = mapping := by
  obtain ⟨start, last, name, component⟩ := mapping
  obtain ⟨start', last', name', component'⟩ := other
  obtain rfl : component = .pia adapter := hadapter
  simp only [blank, onComponent, mk.injEq] at hblank
  obtain ⟨rfl, rfl, rfl, hcomponent⟩ := hblank
  cases component' with
  | ram _ | rom _ => simp [Component.blank] at hcomponent
  | pia adapter' =>
    have hsource : adapter'.source = adapter.source := by
      simpa [Component.blank, Pia.initial] using hcomponent
    obtain ⟨ports, strobe, source⟩ := adapter
    simp only at hstrobe hsource
    subst hstrobe
    simp [restorePorts, onComponent, Component.mapPia, Pia.restore, Pia.state, hsource]

/-- What is true of any two mappings with the same blank is true along two lists with the same
layout. -/
theorem map_congr_of_blank {α : Type} {f g : Mapping → α} {mappings others : List Mapping}
    (hblank : others.map blank = mappings.map blank)
    (h : ∀ mapping ∈ mappings, ∀ other, other.blank = mapping.blank → f other = g mapping) :
    others.map f = mappings.map g := by
  induction mappings generalizing others with
  | nil =>
    obtain rfl : others = [] := by simpa using hblank
    rfl
  | cons mapping rest ih =>
    cases others with
    | nil => cases hblank
    | cons other others =>
      obtain ⟨hfirst, hrest⟩ := List.cons.inj hblank
      rw [List.map_cons, List.map_cons, h mapping List.mem_cons_self other hfirst,
        ih hrest fun later hlater => h later (List.mem_cons_of_mem _ hlater)]

/-- A change that takes every mapping of a layout to the one of another list takes the
one list to the other. -/
theorem map_eq_of_blank {change : Mapping → Mapping} {mappings others : List Mapping}
    (hblank : others.map blank = mappings.map blank)
    (h : ∀ mapping ∈ mappings, ∀ other, other.blank = mapping.blank → change other = mapping) :
    others.map change = mappings :=
  (map_congr_of_blank (g := id) hblank h).trans (List.map_id mappings)

end Mapping

namespace Machine

/-- A machine that is restored from the snapshot of a settled machine of the same layout
has the mappings of that machine. -/
theorem mappings_restore_snapshot {machine other : Machine} (now : Nat)
    (hlayout : other.bus.layout = machine.bus.layout)
    (hdistinct : Mapping.Distinct machine.bus.mappings)
    (hsettled : Mapping.Settled machine.bus.mappings) :
    (other.restore now machine.snapshot).bus.mappings = machine.bus.mappings := by
  have hdistinct' : Mapping.Distinct other.bus.mappings :=
    Mapping.distinct_of_blank hlayout.symm hdistinct
  have hfilled := Bus.mappings_foldl_fillBank hdistinct'.banks (Mapping.images machine.bus.mappings)
  have hdistinct'' : Mapping.Distinct
      ((Mapping.images machine.bus.mappings).foldl fillBank other.bus).mappings :=
    Mapping.distinct_of_blank (Bus.layout_foldl_fillBank other.bus _).symm hdistinct'
  have hmappings : (other.restore now machine.snapshot).bus.mappings =
      (((Mapping.images machine.bus.mappings).foldl fillBank other.bus).onPia fun pia =>
        ((), pia.restore machine.pia.state)).2.mappings := rfl
  have hports := Bus.mappings_onPia hdistinct'' fun pia => ((), pia.restore machine.pia.state)
  rw [hmappings, hports, hfilled, List.map_map]
  -- first the banks have been filled, then the ports are put into the adapter
  refine Mapping.map_eq_of_blank hlayout fun mapping hmem original hblank => ?_
  show ((Mapping.images machine.bus.mappings).foldl Mapping.fill original).restorePorts
    machine.pia.state = mapping
  cases hbank : mapping.component.bank?.isSome with
  | true =>
    rw [Mapping.foldl_fill_images hdistinct hmem hblank hbank]
    exact Mapping.restorePorts_of_bank hbank
  | false =>
    obtain ⟨adapter, hadapter⟩ : ∃ adapter, mapping.component = .pia adapter := by
      cases hcomponent : mapping.component with
      | ram _ | rom _ => simp [hcomponent, Component.bank?] at hbank
      | pia adapter => exact ⟨adapter, rfl⟩
    have hpia : machine.bus.pia? = some adapter := Bus.pia?_of_mem hdistinct hmem hadapter
    have hfilledBlank := (Mapping.blank_foldl_fill (Mapping.images machine.bus.mappings)
      original).trans hblank
    rw [show machine.pia = adapter by rw [pia, hpia, Option.getD_some]]
    have hstrobe := hsettled mapping hmem
    rw [hadapter] at hstrobe
    exact Mapping.restorePorts_of_adapter hadapter hfilledBlank hstrobe

end Machine

end AppleOne
