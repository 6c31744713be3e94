import AppleOne.Proofs.Machine.Load

/-!
# What a restore changes

A snapshot may have images in any order, several of one bank, none of another, some of banks that
the machine does not have, and of any length. A restore puts the last image of every bank into it,
cut or filled up with zeros, and says which images did not fit or had no bank. What it does to
the other parts of the machine is stated here field by field, and what is not named stays.

## Main definitions

* `Bank.filled`, `Mapping.filled`: a bank and a mapping after some images.
* `Bus.misfit?`: what is reported of an image.
* `Mapping.restored`: mappings after a restore.
* `Pacer.withReference`: a pacer that counts from another moment.
* `Machine.Restored`: what a restore makes of a machine.

## Main results

* `Bus.mappings_foldl_fillBank_eq`, `Bus.foldl_fillBank_eq`: what images do to a bus.
* `Mapping.restored_restored`: the second of two equal restores changes no mapping.
* `Machine.restore_exact`: what a restore does, and what it does the second time.
-/

namespace AppleOne

/-! ## Images -/

namespace Bank

/-- A bank after some images: it holds the last one with its id, if there is one. -/
def filled (images : List Image) (bank : Bank) : Bank :=
  (images.reverse.find? (·.id == bank.id)).elim bank fun image => (bank.fillFrom image.data).1

theorem id_fillFrom (bank : Bank) (image : List UInt8) : (bank.fillFrom image).1.id = bank.id := by
  rw [fst_fillFrom]

/-- What is reported of an image: that it has another size than the bank. -/
def misfit? (bank : Bank) (image : List UInt8) : Option Note :=
  if image.length = bank.size then none
  else some ⟨.warn, bank.source, "image for bank '" ++ bank.id ++ "' has " ++
    toString image.length ++ " bytes, bank holds " ++ toString bank.size⟩

theorem snd_fillFrom (bank : Bank) (image : List UInt8) :
    (bank.fillFrom image).2 = bank.misfit? image := by
  unfold fillFrom misfit?
  simp only
  split <;> rfl

theorem fit_eq (size : Nat) (bytes : List UInt8) :
    fit size bytes = bytes.take size ++ List.replicate (size - bytes.length) 0 := by
  have hpadding : size - (bytes.take size).length = size - bytes.length := by
    rw [List.length_take]
    omega
  rw [fit, hpadding]

/-- Of two images the second one counts. -/
theorem fillFrom_fillFrom (bank : Bank) (first second : List UInt8) :
    ((bank.fillFrom first).1.fillFrom second).1 = (bank.fillFrom second).1 := by
  have hsize : (fit bank.size first).toArray.size = bank.size := length_fit _ _
  rw [fst_fillFrom, fst_fillFrom, fst_fillFrom]
  show ({ bank with data := (fit (fit bank.size first).toArray.size second).toArray } : Bank) = _
  rw [hsize]

theorem id_filled (images : List Image) (bank : Bank) : (bank.filled images).id = bank.id := by
  unfold filled
  cases images.reverse.find? (·.id == bank.id) with
  | none => rfl
  | some image => exact bank.id_fillFrom image.data

/-- An image goes into the bank with its id. -/
def fill (image : Image) (bank : Bank) : Bank :=
  if bank.id = image.id then (bank.fillFrom image.data).1 else bank

/-- A bank is filled by one image after the other. -/
theorem filled_concat (images : List Image) (image : Image) (bank : Bank) :
    bank.filled (images ++ [image]) = (bank.filled images).fill image := by
  have hreverse : (images ++ [image]).reverse = image :: images.reverse := by simp
  rw [fill, id_filled]
  unfold filled
  rw [hreverse]
  split
  · next hid =>
    rw [List.find?_cons_of_pos (by simp [hid]), Option.elim_some]
    cases images.reverse.find? (·.id == bank.id) with
    | none => rfl
    | some other => exact (fillFrom_fillFrom bank other.data image.data).symm
  · next hid => rw [List.find?_cons_of_neg (by simpa using Ne.symm hid)]

/-- Filling a bank again with the same images changes nothing. -/
theorem filled_filled (images : List Image) (bank : Bank) :
    (bank.filled images).filled images = bank.filled images := by
  unfold filled
  cases h : images.reverse.find? (·.id == bank.id) with
  | none => rw [Option.elim_none, h, Option.elim_none]
  | some image =>
    rw [Option.elim_some, id_fillFrom, h, Option.elim_some, fillFrom_fillFrom]

end Bank

namespace Mapping

/-- A mapping after some images. -/
def filled (images : List Bank.Image) (mapping : Mapping) : Mapping :=
  mapping.onComponent fun _ component => component.mapBank (·.filled images)

/-- An image that is put into a mapping fills its bank. -/
theorem fill_eq (mapping : Mapping) (image : Bank.Image) :
    mapping.fill image =
      mapping.onComponent fun _ component => component.mapBank (·.fill image) := by
  obtain ⟨start, last, name, component⟩ := mapping
  cases component with
  | pia _ => rfl
  | ram bank | rom bank =>
    by_cases hid : bank.id = image.id
    · simp [fill, Bus.holdsBank, onComponent, Component.mapBank, Component.bank?, Bank.fill, hid]
    · simp [fill, Bus.holdsBank, onComponent, Component.mapBank, Component.bank?, Bank.fill, hid]

/-- Images that are put into a mapping one after the other fill its bank. -/
theorem foldl_fill_eq (images : List Bank.Image) (mapping : Mapping) :
    images.foldl fill mapping = mapping.filled images := by
  -- the image that is put in at the end decides, so the induction takes images off there
  induction images using List.reverseRecOn with
  | nil =>
    obtain ⟨start, last, name, component⟩ := mapping
    cases component <;> rfl
  | append_singleton images image ih =>
    rw [List.foldl_append, ih, List.foldl_cons, List.foldl_nil, fill_eq]
    obtain ⟨start, last, name, component⟩ := mapping
    cases component with
    | pia _ => rfl
    | ram bank =>
      exact congrArg (Mapping.mk start last name ∘ .ram) (bank.filled_concat images image).symm
    | rom bank =>
      exact congrArg (Mapping.mk start last name ∘ .rom) (bank.filled_concat images image).symm

theorem filled_filled (images : List Bank.Image) (mapping : Mapping) :
    (mapping.filled images).filled images = mapping.filled images := by
  obtain ⟨start, last, name, component⟩ := mapping
  cases component with
  | pia _ => rfl
  | ram bank => exact congrArg (Mapping.mk start last name ∘ .ram) (bank.filled_filled images)
  | rom bank => exact congrArg (Mapping.mk start last name ∘ .rom) (bank.filled_filled images)

/-- The mappings after a restore. -/
def restored (images : List Bank.Image) (state : Pia.State) (mappings : List Mapping) :
    List Mapping :=
  (Bus.onFirst Bus.holdsPia (fun _ component => ((), component.mapPia (·.restore state)))
    (mappings.map (filled images))).2

theorem restored_cons (images : List Bank.Image) (state : Pia.State) (mapping : Mapping)
    (rest : List Mapping) :
    restored images state (mapping :: rest) =
      if Bus.holdsPia mapping then mapping.restorePorts state :: rest.map (filled images)
      else mapping.filled images :: restored images state rest := by
  obtain ⟨start, last, name, component⟩ := mapping
  cases component <;> rfl

/-- The second of two equal restores changes no mapping. -/
theorem restored_restored (images : List Bank.Image) (state : Pia.State)
    (mappings : List Mapping) :
    restored images state (restored images state mappings) = restored images state mappings := by
  induction mappings with
  | nil => rfl
  | cons mapping rest ih =>
    rw [restored_cons]
    cases hpia : Bus.holdsPia mapping with
    | true =>
      -- the first adapter takes the ports, and banks may lie on both sides of it
      have hports :
          (mapping.restorePorts state).restorePorts state = mapping.restorePorts state := by
        obtain ⟨start, last, name, component⟩ := mapping
        cases component <;> rfl
      have hrest : (rest.map (filled images)).map (filled images) = rest.map (filled images) := by
        rw [List.map_map]
        exact List.map_congr_left fun other _ => other.filled_filled images
      have hholds : Bus.holdsPia (mapping.restorePorts state) = true := by
        obtain ⟨start, last, name, component⟩ := mapping
        cases component <;> exact hpia
      rw [if_pos rfl, restored_cons, if_pos hholds, hports, hrest]
    | false =>
      have hholds : ¬ Bus.holdsPia (mapping.filled images) = true := by
        obtain ⟨start, last, name, component⟩ := mapping
        cases component <;> exact Bool.eq_false_iff.mp hpia
      rw [if_neg Bool.false_ne_true, restored_cons, if_neg hholds, filled_filled, ih]

end Mapping

/-- Taking in two lists of messages is taking in one. -/
theorem Log.addAll_append (log : Log) (first second : List Note) :
    (log.addAll first).addAll second = log.addAll (first ++ second) :=
  List.foldl_append.symm

namespace Bus

variable {bus : Bus}

/-- Apart from the log a bus is its mappings and its last accesses. -/
theorem eq_of_mappings {first second : Bus} (hmappings : first.mappings = second.mappings)
    (hread : first.lastRead = second.lastRead) (hwrite : first.lastWrite = second.lastWrite) :
    first = { second with log := first.log } := by
  rw [← hmappings, ← hread, ← hwrite]

/-- No two banks of a bus have the same id if no two ids are equal. -/
theorem distinctBanks_of_nodup (h : (bus.banks.map Bank.id).Nodup) :
    Mapping.DistinctBanks bus.mappings := by
  have hbanks : bus.banks.Pairwise fun first second => first.id ≠ second.id :=
    List.pairwise_map.mp h
  refine (List.pairwise_filterMap.mp hbanks).imp fun {first second} hne id hfirst hsecond => ?_
  obtain ⟨bank, hbank, hid⟩ := Option.map_eq_some_iff.mp hfirst
  obtain ⟨other, hother, hotherId⟩ := Option.map_eq_some_iff.mp hsecond
  exact hne bank hbank other hother (hid.trans hotherId.symm)

/-- Images that are filled in one after the other fill every bank by itself. -/
theorem mappings_foldl_fillBank_eq (h : (bus.banks.map Bank.id).Nodup)
    (images : List Bank.Image) :
    (images.foldl Machine.fillBank bus).mappings = bus.mappings.map (Mapping.filled images) :=
  (mappings_foldl_fillBank (distinctBanks_of_nodup h) images).trans
    (List.map_congr_left fun mapping _ => Mapping.foldl_fill_eq images mapping)

theorem bank?_eq_find? (bus : Bus) (id : String) :
    bus.bank? id = (bus.mappings.find? (holdsBank id)).bind (·.component.bank?) := by
  rw [bank?, banks, List.find?_filterMap]
  rfl

/-- What is reported of an image: that there is no bank for it, or that it has another size. -/
def misfit? (bus : Bus) (image : Bank.Image) : Option Note :=
  match bus.bank? image.id with
  | none => some ⟨.warn, "apple1", "save state bank '" ++ image.id ++ "' is not mapped, skipped"⟩
  | some bank => bank.misfit? image.data

/-- What is reported of an image is a matter of the layout. -/
theorem misfit?_of_layout {first second : Bus} (h : first.layout = second.layout)
    (image : Bank.Image) : first.misfit? image = second.misfit? image := by
  have hclear : (first.bank? image.id).map Bank.clear = (second.bank? image.id).map Bank.clear := by
    rw [bank?_eq, bank?_eq, ← Mapping.findSome?_map_blank, ← Mapping.findSome?_map_blank]
    exact congrArg (List.findSome? (Mapping.bankNamed? image.id)) h
  unfold misfit?
  cases hfirst : first.bank? image.id with
  | none =>
    rw [hfirst] at hclear
    rw [Option.map_eq_none_iff.mp hclear.symm]
  | some bank =>
    rw [hfirst] at hclear
    obtain ⟨other, hother, hsame⟩ := Option.map_eq_some_iff.mp hclear.symm
    have hsize : other.size = bank.size := by
      rw [← Mapping.size_clear other, hsame, Mapping.size_clear]
    -- a cleared bank has lost nothing that a message names
    have hid : other.id = bank.id := (congrArg Bank.id hsame :)
    have hsource : other.source = bank.source := (congrArg Bank.source hsame :)
    simp only [hother, Bank.misfit?, hsize, hid, hsource]

/-- Filling a bank leaves the last accesses, and says what did not fit. -/
theorem fillBank_eq (bus : Bus) (image : Bank.Image) :
    Machine.fillBank bus image =
      { bus with
        mappings := (Machine.fillBank bus image).mappings
        log := bus.log.addAll (bus.misfit? image).toList } := by
  simp only [Machine.fillBank, onBank, answer_onFirst, misfit?, bank?_eq_find?]
  cases hfind : bus.mappings.find? (holdsBank image.id) with
  | none => rfl
  | some mapping =>
    have hholds : holdsBank image.id mapping = true := List.find?_some hfind
    obtain ⟨start, last, name, component⟩ := mapping
    cases component with
    | pia _ => cases hholds
    | ram bank | rom bank =>
      show _ = { bus with mappings := _, log := bus.log.addAll (bank.misfit? image.data).toList }
      rw [← bank.snd_fillFrom]
      rfl

/-- Images leave the last accesses, and each of them is reported that does not fit. -/
theorem foldl_fillBank_eq (bus : Bus) (images : List Bank.Image) :
    images.foldl Machine.fillBank bus =
      { bus with
        mappings := (images.foldl Machine.fillBank bus).mappings
        log := bus.log.addAll (images.filterMap bus.misfit?) } := by
  induction images generalizing bus with
  | nil => rfl
  | cons image rest ih =>
    -- the images that come later are measured against the same layout
    have hmisfit : (Machine.fillBank bus image).misfit? = bus.misfit? :=
      funext (misfit?_of_layout (layout_fillBank bus image))
    have hfilled := fillBank_eq bus image
    have hlog : (Machine.fillBank bus image).log = bus.log.addAll (bus.misfit? image).toList :=
      (congrArg Bus.log hfilled :)
    have hread : (Machine.fillBank bus image).lastRead = bus.lastRead :=
      (congrArg Bus.lastRead hfilled :)
    have hwrite : (Machine.fillBank bus image).lastWrite = bus.lastWrite :=
      (congrArg Bus.lastWrite hfilled :)
    have hnotes : (image :: rest).filterMap bus.misfit? =
        (bus.misfit? image).toList ++ rest.filterMap bus.misfit? := by
      rw [List.filterMap_cons]
      cases bus.misfit? image <;> rfl
    refine (ih (Machine.fillBank bus image)).trans ?_
    rw [hmisfit, hlog, hread, hwrite, hnotes, ← Log.addAll_append, List.foldl_cons]

end Bus

namespace Screen

theorem rubout_restore (screen : Screen) (state : State) :
    (screen.restore state).rubout = screen.rubout := by
  rw [restore]

/-- The second of two equal restores changes the version alone. -/
theorem restore_restore (screen : Screen) (state : State) :
    (screen.restore state).restore state =
      { screen.restore state with version := ((screen.restore state).restore state).version } := by
  rw [restore, restore]

end Screen

namespace Pacer

/-- The pacer with another moment as its reference. -/
def withReference (reference : Nat) : Pacer → Pacer
  | freeRun batch => freeRun batch
  | cycleAccurate keeper => cycleAccurate { keeper with reference }

theorem rebase_rebase (pacer : Pacer) (now later : Nat) :
    (pacer.rebase now).rebase later = (pacer.rebase now).withReference later := by
  cases pacer <;> rfl

end Pacer

namespace Machine

/-- What a restore makes of a machine. -/
structure Restored (snapshot : Snapshot) (now : Nat) (before after : Machine) : Prop where
  /-- A bank with an image holds the last one, cut or filled up with zeros. -/
  banks : after.bus.banks = before.bus.banks.map fun bank =>
    match snapshot.image? bank.id with
    | none => bank
    | some image =>
      { bank with
        data := (image.data.take bank.size ++
          List.replicate (bank.size - image.data.length) 0).toArray }
  layout : after.bus.layout = before.bus.layout
  /-- The adapter has the ports that were saved, and the display has nothing to take. -/
  adapter : after.bus.pia? =
    before.bus.pia?.map fun adapter => { adapter with ports := snapshot.pia, strobe := false }
  lastRead : after.bus.lastRead = before.bus.lastRead
  lastWrite : after.bus.lastWrite = before.bus.lastWrite
  /-- Images without a bank and images of another size are reported in their order. -/
  log : after.bus.log = before.bus.log.addAll (snapshot.banks.filterMap before.bus.misfit?)
  /-- The processor has the registers that were saved and does not pass by its hook. -/
  cpu : after.runner.cpu =
    { before.runner.cpu with registers := snapshot.registers, memory := after.bus, bypass := false }
  clock : after.runner.clock =
    { before.runner.clock with pacer := before.runner.clock.pacer.rebase now }
  /-- The debugger forgets where it stopped. -/
  debugger : after.runner.debugger = { before.runner.debugger with lastStop := none }
  shown : ∀ state ∈ snapshot.screen, after.screen.Shows state ∧
    after.screen.rubout = before.screen.rubout
  unshown : snapshot.screen = none → after.screen = before.screen
  /-- Nothing else is touched. -/
  frame : after = { before with runner := after.runner, screen := after.screen }

variable {machine : Machine} (now : Nat) (snapshot : Snapshot)

theorem bus_restore (machine : Machine) :
    (machine.restore now snapshot).bus =
      ((snapshot.banks.foldl fillBank machine.bus).onPia fun pia =>
        ((), pia.restore snapshot.pia)).2 := rfl

/-- A restore as a change of mappings. -/
theorem mappings_restore_eq_restored (h : (machine.bus.banks.map Bank.id).Nodup) :
    (machine.restore now snapshot).bus.mappings =
      Mapping.restored snapshot.banks snapshot.pia machine.bus.mappings := by
  rw [Mapping.restored, ← Bus.mappings_foldl_fillBank_eq h]
  refine Bus.onFirst_congr (fun _ component => ?_) _
  cases component <;> rfl

theorem banks_restore (h : (machine.bus.banks.map Bank.id).Nodup) :
    (machine.restore now snapshot).bus.banks =
      machine.bus.banks.map (Bank.filled snapshot.banks) := by
  rw [bus_restore, Bus.banks_onPia, Bus.banks, Bus.mappings_foldl_fillBank_eq h,
    List.filterMap_map, Bus.banks, List.map_filterMap]
  refine List.filterMap_congr fun mapping _ => ?_
  obtain ⟨start, last, name, component⟩ := mapping
  cases component <;> rfl

theorem restored_restore (h : (machine.bus.banks.map Bank.id).Nodup) :
    Restored snapshot now machine (machine.restore now snapshot) where
  banks := by
    rw [banks_restore now snapshot h]
    refine List.map_congr_left fun bank _ => ?_
    -- the last image with the id of a bank is the one that its bytes are fitted to
    show (snapshot.image? bank.id).elim bank (fun image => (bank.fillFrom image.data).1) = _
    cases snapshot.image? bank.id with
    | none => rfl
    | some image => rw [Option.elim_some, Bank.fst_fillFrom, Bank.fit_eq]
  layout := by
    rw [bus_restore, Bus.layout_onPia _ _ fun _ => rfl, Bus.layout_foldl_fillBank]
  adapter := by
    rw [bus_restore, (Bus.pia?_onPia _ _).2, Bus.pia?_foldl_fillBank]
    rfl
  lastRead := (congrArg Bus.lastRead (Bus.foldl_fillBank_eq machine.bus snapshot.banks) :)
  lastWrite := (congrArg Bus.lastWrite (Bus.foldl_fillBank_eq machine.bus snapshot.banks) :)
  log := (congrArg Bus.log (Bus.foldl_fillBank_eq machine.bus snapshot.banks) :)
  cpu := rfl
  clock := rfl
  debugger := rfl
  shown state hstate := by
    rw [screen_restore_eq_elim, Option.mem_def.mp hstate]
    exact ⟨machine.screen.shows_restore state, machine.screen.rubout_restore state⟩
  unshown hnone := by rw [screen_restore_eq_elim, hnone, Option.elim_none]
  frame := rfl

/-- A restore changes no ids. -/
theorem nodup_restore (h : (machine.bus.banks.map Bank.id).Nodup) :
    ((machine.restore now snapshot).bus.banks.map Bank.id).Nodup := by
  have hids : (machine.restore now snapshot).bus.banks.map Bank.id =
      machine.bus.banks.map Bank.id := by
    rw [banks_restore now snapshot h, List.map_map]
    exact List.map_congr_left fun bank _ => bank.id_filled snapshot.banks
  exact hids ▸ h

/-- Restoring the same snapshot a second time changes no part of the bus but the log. -/
theorem bus_restore_restore (h : (machine.bus.banks.map Bank.id).Nodup) (later : Nat) :
    ((machine.restore now snapshot).restore later snapshot).bus =
      { (machine.restore now snapshot).bus with
        log := ((machine.restore now snapshot).restore later snapshot).bus.log } := by
  have honce := nodup_restore now snapshot h
  have htwice := restored_restore later snapshot honce
  have hmappings : ((machine.restore now snapshot).restore later snapshot).bus.mappings =
      (machine.restore now snapshot).bus.mappings := by
    rw [mappings_restore_eq_restored later snapshot honce,
      mappings_restore_eq_restored now snapshot h, Mapping.restored_restored]
  exact Bus.eq_of_mappings hmappings htwice.lastRead htwice.lastWrite

/-- Restoring the same snapshot a second time changes no part of the screen but the version. -/
theorem screen_restore_restore (machine : Machine) (later : Nat) :
    ((machine.restore now snapshot).restore later snapshot).screen =
      { (machine.restore now snapshot).screen with
        version := ((machine.restore now snapshot).restore later snapshot).screen.version } := by
  rw [screen_restore_eq_elim (machine.restore now snapshot), screen_restore_eq_elim machine]
  cases snapshot.screen with
  | none => rfl
  | some state => exact machine.screen.restore_restore state

/-- A restore has an exact effect on every part of a machine whose banks have distinct ids. Doing
it again with the same snapshot changes the version of the screen, the log, in which the same
messages are kept again, and the moment from which the pacer counts, and nothing else. -/
theorem restore_exact (machine : Machine) (now : Nat) (snapshot : Snapshot)
    (hdistinct : (machine.bus.banks.map Bank.id).Nodup) :
    let once := machine.restore now snapshot
    Restored snapshot now machine once ∧ ∀ later,
      let twice := once.restore later snapshot
      twice = { once with
        runner := { once.runner with
          cpu := { once.runner.cpu with memory := { once.bus with log := twice.bus.log } }
          clock := { once.runner.clock with
            pacer := once.runner.clock.pacer.withReference later } }
        screen := { once.screen with version := twice.screen.version } } ∧
      twice.bus.log = once.bus.log.addAll (snapshot.banks.filterMap machine.bus.misfit?) := by
  intro once
  refine ⟨restored_restore now snapshot hdistinct, fun later => ?_⟩
  intro twice
  -- registers, bypass and stop record are what the first restore made them, so the processor
  -- differs in its memory and the debugger not at all
  have honce := nodup_restore now snapshot hdistinct
  have hcpu : twice.runner.cpu =
      { once.runner.cpu with memory := { once.bus with log := twice.bus.log } } :=
    congrArg (fun bus => { once.runner.cpu with memory := bus })
      (bus_restore_restore now snapshot hdistinct later)
  have hclock : twice.runner.clock =
      { once.runner.clock with pacer := once.runner.clock.pacer.withReference later } :=
    congrArg (fun pacer => { once.runner.clock with pacer })
      (machine.runner.clock.pacer.rebase_rebase now later)
  have hrunner : twice.runner = { once.runner with
      cpu := { once.runner.cpu with memory := { once.bus with log := twice.bus.log } }
      clock := { once.runner.clock with
        pacer := once.runner.clock.pacer.withReference later } } :=
    congrArg₂ (fun cpu clock => { once.runner with cpu, clock }) hcpu hclock
  have hmisfit : once.bus.misfit? = machine.bus.misfit? :=
    funext (Bus.misfit?_of_layout (restored_restore now snapshot hdistinct).layout)
  refine ⟨?_, ?_⟩
  · exact congrArg₂ (fun runner screen => { once with runner, screen }) hrunner
      (screen_restore_restore now snapshot machine later)
  · rw [← hmisfit]
    exact (restored_restore later snapshot honce).log

/-- Two images of ROM and one of a bank that the machine does not have, none of RAM, and no screen:
once and twice. -/
theorem restore_exact_of_images :
    let bus : Bus := {
      mappings := [⟨0, 1, "ram", .ram ⟨"ram", 0, #[1, 2], "ram"⟩⟩,
        ⟨2, 3, "rom", .rom ⟨"rom", 2, #[3, 4], "rom"⟩⟩,
        ⟨0xD010, 0xD013, "pia", .pia ⟨.initial, true, "pia"⟩⟩]
      log := .empty 8 }
    let machine : Machine := {
      runner := ⟨.powerOn bus none, .unstarted {}, .initial⟩
      screen := .empty false
      config := {}
      watched := false
      timer := none
      reportedVersion := 0
      lastSlice := .empty }
    let snapshot : Snapshot :=
      ⟨[⟨"rom", [1]⟩, ⟨"disk", [5]⟩, ⟨"rom", [7, 8, 9]⟩], .initial, .initial, none⟩
    let once := machine.restore 5 snapshot
    (machine.bus.banks.map Bank.id).Nodup ∧
      once.bus.banks = [⟨"ram", 0, #[1, 2], "ram"⟩, ⟨"rom", 2, #[7, 8], "rom"⟩] ∧
      once.bus.pia?.map Pia.strobe = some false ∧
      once.screen = machine.screen ∧
      once.bus.log.entries.toList.map (·.note.text) =
        ["image for bank 'rom' has 1 bytes, bank holds 2",
          "save state bank 'disk' is not mapped, skipped",
          "image for bank 'rom' has 3 bytes, bank holds 2"] ∧
      (once.restore 9 snapshot).bus.log.entries.size = 6 := by
  intro bus machine snapshot once
  have hdistinct : (machine.bus.banks.map Bank.id).Nodup := by decide +kernel
  obtain ⟨hrestored, htwice⟩ := machine.restore_exact 5 snapshot hdistinct
  refine ⟨hdistinct, hrestored.banks.trans (by decide +kernel), ?_, hrestored.unshown rfl, ?_, ?_⟩
  · rw [hrestored.adapter]
    rfl
  · rw [hrestored.log]
    decide +kernel
  · rw [(htwice 9).2, hrestored.log]
    decide +kernel

end Machine

end AppleOne
