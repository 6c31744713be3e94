import AppleOne.Proofs.Json.RoundTrip
import AppleOne.Wire.State

/-!
# Save files that were written are read

Every part of a save file is decoded from its own document, in both forms of it. The only
condition is on the cursor of a screen, whose position has to fit in 64 bits.

## Main results

* `Cpu.Registers.decodes_encode`, `Pia.State.decodes_encode`, `Screen.State.decodes_encode`,
  `Bank.Image.decodes_encode`, `Snapshot.decodes_encode`: the parts.
* `SaveFile.ofJson_apply_encode`: whole files of any version.
-/

namespace AppleOne

open Json

/-- The registers are decoded from their document. -/
theorem Cpu.Registers.decodes_encode (registers : Registers) :
    Decodes decode registers.encode registers :=
  decodes_object "registers" (by simp) (Written.required (decodes_word registers.pc)
    |>.map _
    |>.seq (.required (decodes_byte registers.a))
    |>.seq (.required (decodes_byte registers.x))
    |>.seq (.required (decodes_byte registers.y))
    |>.seq (.required (decodes_byte registers.sp))
    |>.seq (.required (decodes_bool registers.flags.negative))
    |>.seq (.required (decodes_bool registers.flags.overflow))
    |>.seq (.required (decodes_bool registers.flags.decimal))
    |>.seq (.required (decodes_bool registers.flags.interruptDisable))
    |>.seq (.required (decodes_bool registers.flags.zero))
    |>.seq (.required (decodes_bool registers.flags.carry))
    |>.seq (.required (decodes_word64 registers.cycles))
    |>.seq (.required (decodes_bool registers.irqPending))
    |>.seq (.required (decodes_bool registers.nmiPending)))

namespace Pia

/-- The control lines are decoded from their document. -/
theorem LineLevels.decodes_encode (lines : LineLevels) :
    Decodes (record.decode "control lines") lines.encode lines :=
  decodes_object "control lines" (by simp) (Written.required (decodes_bool lines.ca1.level)
    |>.map _
    |>.seq (.required (decodes_bool lines.ca2.level))
    |>.seq (.required (decodes_bool lines.cb1.level))
    |>.seq (.required (decodes_bool lines.cb2.level))
    |>.seq (.required (decodes_bool lines.ca1.previous))
    |>.seq (.required (decodes_bool lines.ca2.previous))
    |>.seq (.required (decodes_bool lines.cb1.previous))
    |>.seq (.required (decodes_bool lines.cb2.previous)))

/-- The ports are decoded from their document. -/
theorem State.decodes_encode (state : State) : Decodes decode state.encode state :=
  decodes_object "adapter" (by simp) (Written.required (decodes_byte state.a.output)
    |>.map _
    |>.seq (.required (decodes_byte state.b.output))
    |>.seq (.required (decodes_byte state.a.direction))
    |>.seq (.required (decodes_byte state.b.direction))
    |>.seq (.required (decodes_byte state.a.control))
    |>.seq (.required (decodes_byte state.b.control))
    |>.seq (.withDefault 0 (decodes_byte state.a.input))
    |>.seq (.withDefault 0 (decodes_byte state.b.input))
    |>.seq (.required (LineLevels.ofState state).decodes_encode))

end Pia

/-- A cursor whose position fits in 64 bits. -/
def Screen.State.CursorFits (state : State) : Prop :=
  state.cursorRow < UInt64.size ∧ state.cursorColumn < UInt64.size

/-- A screen with its cursor in range is decoded from its document. -/
theorem Screen.State.decodes_encode {state : State} (hcursor : state.CursorFits) :
    Decodes decode state.encode state :=
  decodes_object "screen" (by simp)
    (Written.required (decodes_list fun row _ => decodes_string row)
      |>.map _
      |>.seq (.required (decodes_size hcursor.1))
      |>.seq (.required (decodes_size hcursor.2))
      |>.seq (.withDefault 0 (decodes_word64 state.version)))

/-- An image is decoded from its document. -/
theorem Bank.Image.decodes_encode (image : Bank.Image) :
    Decodes (record.decode "bank image") image.encode image :=
  decodes_object "bank image" (by simp) (Written.required (decodes_string image.id)
    |>.map _
    |>.seq (.required (decodes_list fun byte _ => decodes_byte byte)))

/-- A snapshot is decoded from its document, whether it holds a screen or not. -/
theorem Snapshot.decodes_encode {snapshot : Snapshot}
    (hcursor : ∀ screen ∈ snapshot.screen, screen.CursorFits) :
    Decodes (record.decode "snapshot") snapshot.encode snapshot := by
  obtain ⟨banks, registers, pia, screen⟩ := snapshot
  have hram : Written (.required "ram" (.list (Bank.Image.record.decode "bank image")))
      [("ram", .ofList Bank.Image.encode banks)] banks :=
    .required (decodes_list fun image _ => image.decodes_encode)
  have hcpu : Written (.required "cpu" Cpu.Registers.decode) [("cpu", registers.encode)]
      registers :=
    .required registers.decodes_encode
  have hpia : Written (.required "pia" Pia.State.decode) [("pia", pia.encode)] pia :=
    .required pia.decodes_encode
  have hparts := hram |>.map (Snapshot.mk · · · ·) |>.seq hcpu |>.seq hpia
  -- a snapshot without a screen has no member for it
  cases screen with
  | none =>
    exact decodes_object_default "snapshot" (by simp [encodeScreen]) (by simp [encodeScreen])
      hparts
  | some screen =>
    have hvideo : Decodes (Decoder.option Screen.State.decode) screen.encode (some screen) :=
      decodes_some (fun form => by simp [Screen.State.encode])
        (Screen.State.decodes_encode (hcursor screen rfl))
    exact decodes_object "snapshot" (by simp [encodeScreen]) (hparts.seq (.withDefault none hvideo))

namespace SaveFile

/-- A file is decoded from its document. -/
theorem decodes_encode {file : SaveFile}
    (hcursor : ∀ screen ∈ file.state.screen, screen.CursorFits) :
    Decodes (record.decode "save file") file.encode file :=
  decodes_object "save file" (by simp) (Written.required (decodes_word32 file.version)
    |>.map _
    |>.seq (.required (decodes_word64 file.timestamp))
    |>.seq (.required (Snapshot.decodes_encode hcursor)))

/-- The message about a version names the one that is expected and the one that was found. -/
theorem message_versionMismatch (version : Nat) :
    (LoadError.versionMismatch version).message =
      "Save state version mismatch: expected 1, found " ++ toString version := by
  have hexpected : "Save state version mismatch: expected " ++ toString currentVersion.toNat ++
      ", found " = "Save state version mismatch: expected 1, found " := by decide
  exact congrArg (· ++ toString version) hexpected

/-- The version of a file is found in its document, in both forms. -/
theorem versionOf?_encode (file : SaveFile) (form : Form) :
    versionOf? (form.apply file.encode) = some file.version.toNat := by
  have hnodup : ([("version", Json.nat file.version.toNat),
      ("timestamp", .word64 file.timestamp),
      ("state", file.state.encode)].map Prod.fst).Nodup := by simp
  have hget : (form.apply file.encode).get? "version" =
      some (.int (file.version.toNat : Int)) := by
    rw [encode, apply_object, get?_object (keys_members_nodup form hnodup),
      lookup_members form hnodup, List.lookup_cons_self, Option.map_some]
    exact congrArg some (apply_int form _)
  simp [versionOf?, hget]

/-- A file of the current version is read from its document, in both forms, and one of any
other version is refused for it. -/
theorem ofJson_apply_encode {file : SaveFile}
    (hcursor : ∀ screen ∈ file.state.screen, screen.CursorFits) (form : Form) :
    ofJson (form.apply file.encode) =
      if file.version = currentVersion then .ok file
      else .error (.versionMismatch file.version.toNat) := by
  unfold ofJson
  rw [versionOf?_encode]
  simp only [UInt32.toNat_inj, decodes_encode hcursor form]
  rfl

/-- A file of the current version with a screen is read from its document, in both forms. -/
theorem ofJson_encode {file : SaveFile} {screen : Screen.State}
    (hversion : file.version = currentVersion) (hscreen : file.state.screen = some screen)
    (hrow : screen.cursorRow < UInt64.size) (hcolumn : screen.cursorColumn < UInt64.size)
    (form : Form) : ofJson (form.apply file.encode) = .ok file := by
  have hcursor : ∀ other ∈ file.state.screen, other.CursorFits := by
    intro other hother
    obtain rfl := Option.some.inj (hscreen.symm.trans hother)
    exact ⟨hrow, hcolumn⟩
  rw [ofJson_apply_encode hcursor, if_pos hversion]

end SaveFile

end AppleOne
