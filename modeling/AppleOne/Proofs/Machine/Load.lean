import AppleOne.Machine.Handle
import AppleOne.Proofs.Bus.Banks
import AppleOne.Proofs.Machine.Adapter
import AppleOne.Proofs.Screen.Printable
import AppleOne.Proofs.Wire.SaveFile

/-!
# Loading a save file

A load looks at the version first, whatever else is in the document. It is all or nothing: a
document that is refused leaves a message in the log and changes nothing else, and one that
is accepted is put into the machine as a whole. How the machine is run is not part of a save
file and stays.

## Main definitions

* `Json.HasMember`: a member of a document.
* `Snapshot.image?`: the image of a bank that counts.
* `Screen.Shows`: a screen that shows what was saved.
* `Machine.Installed`: a machine into which a snapshot was put.

## Main results

* `SaveFile.versionOf?_eq_some_iff`: which documents have a version.
* `Bus.byte?_foldl_fillBank`: what images do to the bytes of banks.
* `Machine.installed_restore`: what a restore does.
* `Machine.load_all_or_nothing`: what a load answers and does.
-/

namespace AppleOne

/-! ## Documents -/

/-- The document is an object with a member; of several with the same key it is the last. -/
def Json.HasMember (document : Json) (key : String) (value : Json) : Prop :=
  ∃ earlier later, document = .object (earlier ++ (key, value) :: later) ∧
    ∀ member ∈ later, member.1 ≠ key

theorem Json.get?_eq_some_iff {document : Json} {key : String} {value : Json} :
    document.get? key = some value ↔ document.HasMember key value := by
  cases document with
  | object members =>
    simp only [get?, HasMember, List.findRev?_eq_find?_reverse, Option.map_eq_some_iff,
      object.injEq]
    -- members are looked through from the last one on
    constructor
    · rintro ⟨⟨found, _⟩, hfind, rfl⟩
      obtain ⟨hkey, later, earlier, hmembers, hlater⟩ := List.find?_eq_some_iff_append.mp hfind
      obtain rfl : found = key := by simpa using hkey
      refine ⟨earlier.reverse, later.reverse, ?_, ?_⟩
      · rw [← List.reverse_reverse members, hmembers]
        simp
      · simpa using hlater
    · rintro ⟨earlier, later, rfl, hlater⟩
      refine ⟨(key, value), List.find?_eq_some_iff_append.mpr ?_, rfl⟩
      refine ⟨beq_self_eq_true key, later.reverse, earlier.reverse, by simp, ?_⟩
      simpa using hlater
  | _ =>
    constructor
    · intro h
      cases h
    · rintro ⟨_, _, h, -⟩
      cases h

namespace SaveFile

/-- The version of a document is a member that holds an integer which is not negative. -/
theorem versionOf?_eq_some_iff {document : Json} {version : Nat} :
    versionOf? document = some version ↔ document.HasMember "version" (.int version) := by
  rw [← Json.get?_eq_some_iff]
  unfold versionOf?
  split
  · next found hfound =>
    rw [hfound]
    simp only [Option.some.injEq, Json.int.injEq]
    split
    · rw [Option.some.injEq]
      omega
    · simp only [reduceCtorEq, false_iff]
      omega
  · next hnone =>
    simp only [reduceCtorEq, false_iff]
    exact fun h => hnone _ h

/-- What comes of a document depends on its version first. -/
theorem ofJson_of_version {document : Json} {version : Nat}
    (h : document.HasMember "version" (.int version)) :
    ofJson document =
      if version = 1 then (record.decode "save file" document).mapError .malformed
      else .error (.versionMismatch version) := by
  unfold ofJson
  rw [versionOf?_eq_some_iff.mpr h]
  rfl

/-- The version is missing from the documents that are refused for that. -/
theorem ofJson_eq_missingVersion_iff {document : Json} :
    ofJson document = .error .missingVersion ↔
      ¬ ∃ version : Nat, document.HasMember "version" (.int version) := by
  constructor
  · rintro h ⟨version, hversion⟩
    rw [ofJson_of_version hversion] at h
    split at h
    · cases hdecode : record.decode "save file" document <;> rw [hdecode] at h <;> cases h
    · cases h
  · intro h
    have hnone : versionOf? document = none :=
      Option.eq_none_iff_forall_ne_some.mpr fun version hversion =>
        h ⟨version, versionOf?_eq_some_iff.mp hversion⟩
    unfold ofJson
    rw [hnone]

end SaveFile

/-! ## Images -/

/-- The image of a bank that counts: the last one with its id. -/
def Snapshot.image? (snapshot : Snapshot) (id : String) : Option Bank.Image :=
  snapshot.banks.reverse.find? (·.id == id)

/-- An image is cut or filled up with zeros. -/
theorem Bank.getElem?_fit (size : Nat) (bytes : List UInt8) (offset : Nat) :
    (fit size bytes)[offset]? = if offset < size then some (bytes.getD offset 0) else none := by
  grind [fit]

/-- An image replaces the bytes of a bank and nothing else of it. -/
theorem Bank.fst_fillFrom (bank : Bank) (image : List UInt8) :
    (bank.fillFrom image).1 = { bank with data := (fit bank.size image).toArray } := by
  unfold fillFrom
  simp only
  split <;> rfl

/-- The bytes of a bank that was filled. -/
theorem Bank.getElem?_fillFrom (bank : Bank) (image : List UInt8) (offset : Nat) :
    (bank.fillFrom image).1.data[offset]? =
      bank.data[offset]?.map fun _ => image.getD offset 0 := by
  rw [fst_fillFrom, List.getElem?_toArray, getElem?_fit]
  split_ifs with hoffset
  · have hlt : offset < bank.data.size := hoffset
    rw [Array.getElem?_eq_getElem hlt, Option.map_some]
  · have hge : bank.data.size ≤ offset := Nat.not_lt.mp hoffset
    rw [Array.getElem?_eq_none hge, Option.map_none]

namespace Bus

variable (bus : Bus) (image : Bank.Image) (images : List Bank.Image) (id : String)
  (offset : UInt16)

/-- An image goes into the bank with its id. -/
theorem bank?_fillBank :
    (Machine.fillBank bus image).bank? id =
      if id = image.id then (bus.bank? id).map fun bank => (bank.fillFrom image.data).1
      else bus.bank? id := by
  rw [bank?_eq, mappings_fillBank_eq_onBank, ← bank?_eq,
    bank?_onBank _ _ _ _ fun bank => bank.clear_fillFrom image.data]
  split_ifs with hid
  · rw [hid]
  · rfl

/-- An image replaces the bytes of the bank with its id. -/
theorem byte?_fillBank :
    (Machine.fillBank bus image).byte? id offset =
      if id = image.id then (bus.byte? id offset).map fun _ => image.data.getD offset.toNat 0
      else bus.byte? id offset := by
  rw [byte?, bank?_fillBank, byte?]
  split_ifs
  · cases bus.bank? id with
    | none => rfl
    | some bank => exact bank.getElem?_fillFrom image.data offset.toNat
  · rfl

/-- Of several images of a bank the last one counts. -/
theorem byte?_foldl_fillBank :
    (images.foldl Machine.fillBank bus).byte? id offset =
      (bus.byte? id offset).map fun byte =>
        (images.reverse.find? (·.id == id)).elim byte (·.data.getD offset.toNat 0) := by
  -- the image that is filled in at the end decides, so the induction takes images off there
  induction images using List.reverseRecOn with
  | nil => simp
  | append_singleton earlier image ih =>
    rw [List.foldl_append, List.foldl_cons, List.foldl_nil, byte?_fillBank, ih,
      List.reverse_append, List.reverse_singleton, List.singleton_append]
    split_ifs with hid
    · rw [List.find?_cons_of_pos (by simp [hid]), Option.map_map]
      rfl
    · rw [List.find?_cons_of_neg (by simpa using Ne.symm hid)]

variable {images id} in
/-- Images of other banks leave a bank. -/
theorem bank?_foldl_fillBank (h : ∀ image ∈ images, id ≠ image.id) :
    (images.foldl Machine.fillBank bus).bank? id = bus.bank? id := by
  induction images generalizing bus with
  | nil => rfl
  | cons image rest ih =>
    obtain ⟨himage, hrest⟩ := List.forall_mem_cons.mp h
    rw [List.foldl_cons, ih (Machine.fillBank bus image) hrest, bank?_fillBank, if_neg himage]

/-- Images leave the adapter. -/
theorem pia?_foldl_fillBank : (images.foldl Machine.fillBank bus).pia? = bus.pia? := by
  induction images generalizing bus with
  | nil => rfl
  | cons image rest ih =>
    refine (ih (Machine.fillBank bus image)).trans (findSome?_adapter?_congr ?_)
    rw [mappings_fillBank_eq_onBank]
    exact adapters_onBank bus image.id _

end Bus

/-! ## Screens -/

namespace Screen

/-- A screen that shows what was saved, cut or filled up with blanks to its size. -/
structure Shows (screen : Screen) (state : State) : Prop where
  cells : ∀ (row column : Nat) (hrow : row < rows) (hcolumn : column < columns),
    screen.cells[row][column] =
      ((state.rows[row]?).bind (·.toList[column]?)).elim blank codeOf
  row : screen.row.val = min state.cursorRow (rows - 1)
  column : screen.column.val = min state.cursorColumn (columns - 1)

/-- A restored screen shows what was saved. -/
theorem shows_restore (screen : Screen) (state : State) : (screen.restore state).Shows state where
  cells row column hrow hcolumn := by
    have hline (line : Option String) :
        (line.elim blankRow fun text => rowOf text.toList)[column] =
          (line.bind (·.toList[column]?)).elim blank codeOf := by
      cases line with
      | none => simp [blankRow]
      | some text => simp [rowOf]
    simp only [restore, Vector.getElem_ofFn]
    exact hline state.rows[row]?
  row := val_clamp (by decide) _
  column := val_clamp (by decide) _

end Screen

/-! ## Machines -/

theorem Pacer.mode_rebase (pacer : Pacer) (now : Nat) : (pacer.rebase now).mode = pacer.mode := by
  cases pacer <;> rfl

namespace Machine

/-- A machine into which a snapshot was put. The registers and the ports are those that were
saved. Every byte of a bank with an image is the one of the image, zero beyond its end, and
all others are as before. The screen shows what was saved, if a screen was saved. -/
structure Installed (snapshot : Snapshot) (before after : Machine) : Prop where
  registers : after.runner.cpu.registers = snapshot.registers
  ports : after.bus.pia?.map Pia.state = before.bus.pia?.map fun _ => snapshot.pia
  bytes : ∀ id offset, after.bus.byte? id offset =
    (before.bus.byte? id offset).map fun byte =>
      (snapshot.image? id).elim byte (·.data.getD offset.toNat 0)
  shown : ∀ state ∈ snapshot.screen, after.screen.Shows state
  unshown : snapshot.screen = none → after.screen = before.screen

/-- A machine that is run as before: the flags of the clock, both modes and the stop addresses
are the same. -/
structure SameRun (before after : Machine) : Prop where
  started : after.runner.clock.started = before.runner.clock.started
  paused : after.runner.clock.paused = before.runner.clock.paused
  pacing : after.runner.clock.mode = before.runner.clock.mode
  mode : after.runner.debugger.mode = before.runner.debugger.mode
  breakpoints : after.runner.debugger.breakpoints = before.runner.debugger.breakpoints
  target : after.runner.debugger.target = before.runner.debugger.target

variable (machine : Machine) (now : Nat) (snapshot : Snapshot)

/-- The screen is restored if one was saved. -/
theorem screen_restore_eq_elim :
    (machine.restore now snapshot).screen =
      snapshot.screen.elim machine.screen machine.screen.restore := by
  cases hscreen : snapshot.screen with
  | none =>
    simp only [restore, hscreen]
    rfl
  | some state =>
    simp only [restore, hscreen]
    rfl

/-- A restore puts the whole snapshot into the machine. -/
theorem installed_restore : Installed snapshot machine (machine.restore now snapshot) where
  registers := rfl
  ports := by
    have hports : (machine.restore now snapshot).bus.pia? =
        (snapshot.banks.foldl fillBank machine.bus).pia?.map (·.restore snapshot.pia) :=
      (Bus.pia?_onPia _ fun pia => ((), pia.restore snapshot.pia)).2
    rw [hports, Bus.pia?_foldl_fillBank, Option.map_map]
    rfl
  bytes id offset := by
    have hbank : (machine.restore now snapshot).bus.byte? id offset =
        (snapshot.banks.foldl fillBank machine.bus).byte? id offset :=
      congrArg (·.bind fun bank : Bank => bank.data[offset.toNat]?)
        (Bus.bank?_onPia _ (fun pia => ((), pia.restore snapshot.pia)) id)
    rw [hbank, Bus.byte?_foldl_fillBank]
    rfl
  shown state hstate := by
    rw [screen_restore_eq_elim, Option.mem_def.mp hstate]
    exact machine.screen.shows_restore state
  unshown hnone := by rw [screen_restore_eq_elim, hnone, Option.elim_none]

/-- How a machine is run is not part of a snapshot. -/
theorem sameRun_restore : SameRun machine (machine.restore now snapshot) where
  started := rfl
  paused := rfl
  pacing := machine.runner.clock.pacer.mode_rebase now
  mode := rfl
  breakpoints := rfl
  target := rfl

/-- Whether a document is refused for its version is decided by the version alone. A refused
document is answered with the reason and leaves an error message in the log, and nothing else
of the machine changes. An accepted one is installed as a whole, and the machine is run as
before. -/
theorem load_all_or_nothing (machine : Machine) (time : Time) (document : Json) :
    (SaveFile.ofJson document = .error .missingVersion ↔
      ¬ ∃ version : Nat, document.HasMember "version" (.int version)) ∧
    (∀ version : Nat, document.HasMember "version" (.int version) →
      if version = 1 then
        (∃ reason, SaveFile.ofJson document = .error (.malformed reason)) ∨
          ∃ file, SaveFile.ofJson document = .ok file
      else
        SaveFile.ofJson document = .error (.versionMismatch version) ∧
          (LoadError.versionMismatch version).message =
            "Save state version mismatch: expected 1, found " ++ toString version) ∧
    match SaveFile.ofJson document with
    | .error reason =>
        machine.handle time (.loadState document) =
          (.error reason.message, machine.withBus { machine.bus with
            log := machine.bus.log.add
              ⟨.error, logSource, "load state failed: " ++ reason.message⟩ })
    | .ok file => ∃ loaded, machine.handle time (.loadState document) = (.ok, loaded) ∧
        Installed file.state machine loaded ∧ SameRun machine loaded := by
  refine ⟨SaveFile.ofJson_eq_missingVersion_iff, fun version hversion => ?_, ?_⟩
  · rw [SaveFile.ofJson_of_version hversion]
    split_ifs
    · -- a document of the present version is decoded, which may fail anywhere in it
      cases SaveFile.record.decode "save file" document with
      | error reason => exact .inl ⟨reason, rfl⟩
      | ok file => exact .inr ⟨file, rfl⟩
    · exact ⟨rfl, SaveFile.message_versionMismatch version⟩
  · cases hfile : SaveFile.ofJson document with
    | error reason =>
      -- nothing has been done to the machine when the document is refused
      simp only [handle, load, hfile]
      rfl
    | ok file =>
      refine ⟨(machine.load time.micros document).2, ?_, ?_⟩
      · simp only [handle, load, hfile]
      · -- the message about the load changes nothing but the log
        obtain ⟨hregisters, hports, hbytes, hshown, hunshown⟩ :=
          installed_restore machine time.micros file.state
        obtain ⟨hstarted, hpaused, hpacing, hmode, hbreakpoints, htarget⟩ :=
          sameRun_restore machine time.micros file.state
        simp only [load, hfile]
        exact ⟨⟨hregisters, hports, hbytes, hshown, hunshown⟩,
          ⟨hstarted, hpaused, hpacing, hmode, hbreakpoints, htarget⟩⟩

/-- A file with an image of ROM and a screen. -/
def sampleFile : SaveFile :=
  .stamp ⟨[⟨romName, [0xA9, 0x12]⟩], .initial, .initial, some ⟨["HI"], 99, 2, 7⟩⟩ 0

/-- A document of another version, one with a good image and a bad register, and a good one. -/
theorem load_all_or_nothing_samples :
    let other : Json := .object [("version", .int 2), ("state", .null)]
    let broken : Json := .object [("version", .int 1), ("timestamp", .int 0),
      ("state", .object [("ram", .array [(⟨romName, [0xA9]⟩ : Bank.Image).encode]),
        ("cpu", .object [("pc", .int 0x10000)])])]
    ∃ fresh, build? {} 0 = .ok fresh ∧
      SaveFile.ofJson other = .error (.versionMismatch 2) ∧
      (fresh.handle ⟨1, 0⟩ (.loadState broken)).2.core = fresh.core ∧
      ∃ loaded, fresh.handle ⟨1, 0⟩ (.loadState sampleFile.encode) = (.ok, loaded) ∧
        loaded.bus.byte? romName 0 = some 0xA9 := by
  intro other broken
  obtain ⟨fresh, hbuilt⟩ := exists_build? {} 0
  refine ⟨fresh, hbuilt, ?_, ?_, ?_⟩
  · have hother := (load_all_or_nothing fresh ⟨1, 0⟩ other).2.1 2 ⟨[], _, rfl, by decide⟩
    exact hother.1
  · have hbroken := (load_all_or_nothing fresh ⟨1, 0⟩ broken).2.2
    have hreason : SaveFile.ofJson broken =
        .error (.malformed (.outOfRange 0x10000 "a word")) := by rfl
    rw [hreason] at hbroken
    rw [hbroken]
    rfl
  · have hread : SaveFile.ofJson sampleFile.encode = .ok sampleFile :=
      SaveFile.ofJson_encode rfl rfl (by decide) (by decide) .written
    have hloaded := (load_all_or_nothing fresh ⟨1, 0⟩ sampleFile.encode).2.2
    rw [hread] at hloaded
    obtain ⟨loaded, hanswer, hinstalled, -⟩ := hloaded
    refine ⟨loaded, hanswer, ?_⟩
    -- the machine has such a byte, so the image puts its own there
    obtain ⟨bank, byte, hbank, hbyte, -⟩ :
        fresh.bus.Holds 0xFF00 (place {} 0xFF00) :=
      holds_of_layout (sound_build? hbuilt).layout 0xFF00
    have hbefore : fresh.bus.byte? romName 0 = some byte := by
      rw [Bus.byte?, hbank]
      exact hbyte
    rw [hinstalled.bytes, hbefore]
    rfl

end Machine

end AppleOne
