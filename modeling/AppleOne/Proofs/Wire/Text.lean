import AppleOne.Proofs.Json.Text
import AppleOne.Proofs.Wire.SaveFile

/-!
# Save files as text

A save file comes back from its text as it was written, and from its document in both forms.
Its integers have at most 64 bits and its brackets are five deep, well below what the reader
allows; its strings, which are the names of banks and the rows of the screen, can be any.

## Main results

* `SaveFile.readable_encode`: the document of a save file is one that text gives back.
* `SaveFile.written_file_is_read`: what a file that was written is read as.
-/

namespace AppleOne

namespace Json

variable {depth : Nat}

theorem readable_nat {n : Nat} (h : n < UInt64.size) : Readable depth (.nat n) :=
  .int (by omega) (Int.ofNat_lt.mpr h)

@[simp] theorem readable_byte (value : UInt8) : Readable depth (.byte value) :=
  readable_nat (Nat.lt_trans value.toNat_lt (by decide))

@[simp] theorem readable_word (value : UInt16) : Readable depth (.word value) :=
  readable_nat (Nat.lt_trans value.toNat_lt (by decide))

@[simp] theorem readable_word64 (value : UInt64) : Readable depth (.word64 value) :=
  readable_nat value.toNat_lt

attribute [simp] Readable.bool Readable.string

theorem readable_ofList {α : Type} {encode : α → Json} {values : List α}
    (h : ∀ value ∈ values, Readable depth (encode value)) :
    Readable (depth + 1) (.ofList encode values) :=
  .array fun item hitem => by
    obtain ⟨value, hvalue, rfl⟩ := List.mem_map.mp hitem
    exact h value hvalue

end Json

open Json

variable {depth : Nat}

@[simp] theorem Cpu.Registers.readable_encode (registers : Registers) :
    Readable (depth + 1) registers.encode :=
  .object (by simp)

@[simp] theorem Pia.LineLevels.readable_encode (lines : LineLevels) :
    Readable (depth + 1) lines.encode :=
  .object (by simp)

@[simp] theorem Pia.State.readable_encode (state : State) :
    Readable (depth + 2) state.encode :=
  .object (by simp)

theorem Screen.State.readable_encode {state : State} (hcursor : state.CursorFits) :
    Readable (depth + 2) state.encode := by
  have hrows : Readable (depth + 1) (.ofList .string state.rows) :=
    readable_ofList fun row _ => .string row
  exact .object (by simp [hrows, readable_nat hcursor.1, readable_nat hcursor.2])

theorem Bank.Image.readable_encode (image : Bank.Image) :
    Readable (depth + 2) image.encode := by
  have hdata : Readable (depth + 1) (.ofList .byte image.data) :=
    readable_ofList fun byte _ => readable_byte byte
  exact .object (by simp [hdata])

theorem Snapshot.readable_encode {snapshot : Snapshot}
    (hcursor : ∀ screen ∈ snapshot.screen, screen.CursorFits) :
    Readable (depth + 4) snapshot.encode := by
  have hbanks : Readable (depth + 3) (.ofList Bank.Image.encode snapshot.banks) :=
    readable_ofList fun image _ => image.readable_encode
  have hscreen : ∀ member ∈ encodeScreen snapshot.screen, Readable (depth + 3) member.2 := by
    cases hheld : snapshot.screen with
    | none => simp [encodeScreen]
    | some screen =>
      simp [encodeScreen, Screen.State.readable_encode (hcursor screen hheld)]
  exact .object (List.forall_mem_append.mpr ⟨by simp [hbanks], hscreen⟩)

namespace SaveFile

/-- The document of a save file has an integer or a string at every end, and brackets five
deep. -/
theorem readable_encode {file : SaveFile}
    (hcursor : ∀ screen ∈ file.state.screen, screen.CursorFits) :
    Readable (depth + 5) file.encode := by
  have hversion : Readable (depth + 4) (.nat file.version.toNat) :=
    readable_nat (Nat.lt_trans file.version.toNat_lt (by decide))
  exact .object (by simp [hversion, Snapshot.readable_encode hcursor])

/-- A save file that was written is read as the same file if it has the current version, and
refused for its version, whose number is given, if it has another. This is so for its text
and for its document, with the members in the order of writing and sorted; whatever banks, bytes,
registers, ports and rows of text the file holds, with a screen and without. A cursor is a
position of 64 bits. -/
theorem written_file_is_read (file : SaveFile)
    (hcursor : ∀ screen ∈ file.state.screen, screen.CursorFits) :
    let mismatch := LoadError.versionMismatch file.version.toNat
    let outcome : Except LoadError SaveFile :=
      if file.version = 1 then .ok file else .error mismatch
    ofText file.toText = outcome ∧ ofJson file.encode = outcome ∧
      ofJson file.encode.canonical = outcome ∧
      mismatch.message =
        "Save state version mismatch: expected 1, found " ++ toString file.version.toNat := by
  have hdocument := ofJson_apply_encode hcursor
  have hreadable : Readable (122 + 5) file.encode := readable_encode hcursor
  have hparse : parse? file.toText = some file.encode.canonical := parse?_render hreadable
  refine ⟨?_, hdocument .written, hdocument .canonical, message_versionMismatch _⟩
  unfold ofText
  rw [hparse]
  exact hdocument .canonical

/-- A file with bytes and text of all kinds, of some version. -/
def motleyFile (version : UInt32) : SaveFile :=
  ⟨version, 0xFFFFFFFFFFFFFFFF,
    ⟨[⟨"a \"b\"\n", [0, 255]⟩, ⟨"", []⟩], { Cpu.Registers.initial with cycles := 7 }, .initial,
      some ⟨["\t\\é\x01"], 99, 0xFFFFFFFFFFFFFFFF, 3⟩⟩⟩

/-- Files of the current version and of another. -/
theorem motley_file_is_read :
    ofText (motleyFile 1).toText = .ok (motleyFile 1) ∧
      ofText (motleyFile 0xFFFFFFFF).toText = .error (.versionMismatch 0xFFFFFFFF) := by
  have hcursor (version : UInt32) :
      ∀ screen ∈ (motleyFile version).state.screen, screen.CursorFits := by
    intro screen hscreen
    obtain rfl := Option.some.inj hscreen
    exact ⟨by decide, by decide⟩
  exact ⟨(written_file_is_read (motleyFile 1) (hcursor 1)).1,
    (written_file_is_read (motleyFile 0xFFFFFFFF) (hcursor 0xFFFFFFFF)).1⟩

end SaveFile

end AppleOne
