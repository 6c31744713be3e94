import AppleOne.Proofs.Bank.Flash
import Mathlib.Data.List.Basic

/-!
# Values that are cut

An integer in a flash payload is cut to a byte in two steps, first to 32 bits and then to eight,
and only the second one is reported. So an integer that is no byte is stored without a report if
its low 32 bits happen to be those of a byte.

## Main definitions

* `Json.outsideByte`: integers that are no bytes.
* `Json.passesAsByte`: those among them that are taken for bytes.

## Main results

* `Bank.snd_entryByte`: the report of an entry.
* `Bank.filter_flashJson`: the reports of a payload.
* `Bank.narrowing_reported`: how many of the integers that are no bytes are reported.
-/

namespace AppleOne

/-! ## Messages about faults -/

theorem Note.Reports.level {note : Note} {fault : Fault} (h : note.Reports fault) :
    note.level = fault.level := by
  obtain ⟨source, detail, rfl⟩ := h
  rfl

/-- A message about a fault begins with the name of the fault, and has its level. -/
theorem Note.reports_iff {note : Note} {fault : Fault} :
    note.Reports fault ↔
      note.level = fault.level ∧ (fault.name ++ ": ").toList <+: note.text.toList := by
  constructor
  · rintro ⟨source, detail, rfl⟩
    exact ⟨rfl, detail.toList, String.toList_append.symm⟩
  · obtain ⟨level, source, text⟩ := note
    rintro ⟨rfl, detail, hdetail⟩
    refine ⟨source, .ofList detail, congrArg (Note.mk _ source) (String.toList_inj.mp ?_)⟩
    rw [String.toList_append, String.toList_ofList]
    exact hdetail.symm

instance (note : Note) (fault : Fault) : Decidable (note.Reports fault) :=
  decidable_of_iff _ Note.reports_iff.symm

/-! ## Integers that are no bytes -/

/-- Whether a value is an integer that is no byte. -/
def Json.outsideByte : Json → Bool
  | .int value => value < 0 || 255 < value
  | _ => false

/-- Whether a value is an integer that is no byte, though its low 32 bits are those of one. -/
def Json.passesAsByte : Json → Bool
  | .int value => (value < 0 || 255 < value) && value % 4294967296 ≤ 255
  | _ => false

/-- An integer that passes as a byte takes 33 bits at least. -/
theorem Json.not_passesAsByte {value : Int} (hlow : -4294967041 < value)
    (hhigh : value < 4294967296) : (Json.int value).passesAsByte = false := by
  simp only [passesAsByte, Bool.and_eq_false_iff, Bool.or_eq_false_iff, decide_eq_false_iff_not]
  omega

namespace Bank

/-- The report of an entry of a payload. -/
def narrowing? (source : String) : Json → Option Note
  | .int value =>
    if 255 < value % 4294967296 then
      some (Fault.maskedValue.note source ("0x" ++ Text.hexNat 1 (value % 4294967296).toNat ++
        " stored as 0x" ++ Text.hexByte (Json.int value).lowByte))
    else none
  | _ => none

/-- An integer is reported if its low 32 bits are more than a byte; other values are not. -/
theorem snd_entryByte (bank : Bank) {entry : Json} (h : entry.isFloat = false) :
    (bank.entryByte entry).2 = narrowing? bank.source entry := by
  cases entry with
  | float value => cases h
  | int value =>
    have hbits := toNat_lowBits value
    have hnat : value.toInt64.toUInt64.toUInt32.toNat = (value % 4294967296).toNat := by omega
    have hbyte : value.toInt64.toUInt64.toUInt32.toUInt8 = (Json.int value).lowByte := by
      rw [← fst_entryByte bank h]
      exact (fst_narrow bank _).symm
    have hle : value.toInt64.toUInt64.toUInt32 ≤ 0xFF ↔ ¬ 255 < value % 4294967296 := by
      rw [UInt32.le_iff_toNat_le, ← hbits]
      show value.toInt64.toUInt64.toUInt32.toNat ≤ 255 ↔ _
      omega
    show (bank.narrow value.toInt64.toUInt64.toUInt32).2 = _
    simp only [narrow, narrowing?]
    by_cases hwide : 255 < value % 4294967296
    · rw [if_neg (fun hle' => hle.mp hle' hwide), if_pos hwide, hnat, hbyte]
    · rw [if_pos (hle.mpr hwide), if_neg hwide]
  | _ => rfl

/-! ## Reports -/

/-- Bytes that miss the bank are reported by a warning. -/
theorem level_overlayAt (bank : Bank) (address : UInt16) (bytes : List UInt8) {note : Note}
    (h : note ∈ (bank.overlayAt address bytes).2.2) : note.level = .warn := by
  rw [notes_overlayAt] at h
  split at h
  · cases h
  · exact congrArg Note.level (List.mem_singleton.mp h)

/-- Flashing bytes does not report that any of them was cut. -/
theorem not_reports_flash (bank : Bank) (payload : List UInt8) {note : Note}
    (h : note ∈ (bank.flash payload).2.2) : ¬ note.Reports .maskedValue := by
  have hlevel : note.level ≠ .info := by
    unfold flash at h
    split at h
    · next low high byte bytes =>
      rw [level_overlayAt bank (Cpu.word low high) (byte :: bytes) h]
      exact nofun
    · rw [List.mem_singleton.mp h]
      exact nofun
  exact fun hreports => hlevel hreports.level

/-- That there are values which are no numbers is reported by a warning. -/
theorem not_reports_coercion (bank : Bank) (count : Nat) {note : Note}
    (h : note ∈ bank.coercion count) : ¬ note.Reports .maskedValue := by
  unfold coercion at h
  split at h
  · cases h
  · rw [List.mem_singleton.mp h]
    exact fun hreports => nomatch hreports.level

/-- The reports of integers that were cut, in the order of the entries. -/
theorem filter_flashJson (bank : Bank) {payload : List Json} (hlength : 3 ≤ payload.length)
    (hfloat : ∀ entry ∈ payload, entry.isFloat = false) :
    (bank.flashJson payload).2.2.filter (·.Reports .maskedValue) =
      payload.filterMap (narrowing? bank.source) := by
  have hnarrowing : payload.filterMap (fun entry => (bank.entryByte entry).2) =
      payload.filterMap (narrowing? bank.source) :=
    List.filterMap_congr fun entry hentry => snd_entryByte bank (hfloat entry hentry)
  have hall : (payload.filterMap fun entry => (bank.entryByte entry).2).filter
      (·.Reports .maskedValue) = payload.filterMap fun entry => (bank.entryByte entry).2 := by
    refine List.filter_eq_self.mpr fun note hnote => decide_eq_true ?_
    obtain ⟨entry, -, hentry⟩ := List.mem_filterMap.mp hnote
    exact reports_entryByte bank hentry
  have hnone {notes : List Note} (h : ∀ note ∈ notes, ¬ note.Reports .maskedValue) :
      notes.filter (·.Reports .maskedValue) = [] :=
    List.filter_eq_nil_iff.mpr fun note hnote => by simpa using h note hnote
  rw [flashJson_eq bank hlength hfloat, List.filter_append, List.filter_append, hall,
    hnone fun _ => not_reports_coercion bank _, hnone fun _ => not_reports_flash bank _,
    List.append_nil, List.append_nil, hnarrowing]

/-- An integer that is no byte is reported unless it passes as a byte. -/
theorem isSome_narrowing? (source : String) (entry : Json) :
    (narrowing? source entry).isSome = (entry.outsideByte && !entry.passesAsByte) := by
  cases entry with
  | int value =>
    simp only [narrowing?, Json.outsideByte, Json.passesAsByte]
    split
    · next hwide =>
      have houtside : value < 0 ∨ 255 < value := by omega
      simp [houtside, Int.not_le.mpr hwide]
    · next hnarrow =>
      rw [decide_eq_true (Int.not_lt.mp hnarrow), Bool.and_true, Bool.and_not_self]
      rfl
  | _ => rfl

/-- The integers that are no bytes are those that are reported and those that pass as bytes. -/
theorem length_narrowing_add (source : String) (payload : List Json) :
    (payload.filterMap (narrowing? source)).length + payload.countP Json.passesAsByte =
      payload.countP Json.outsideByte := by
  -- what passes as a byte is counted among the integers that are none
  have hpasses : payload.countP Json.passesAsByte =
      payload.countP fun entry => entry.outsideByte && entry.passesAsByte := by
    refine List.countP_congr fun entry _ => ?_
    cases entry with
    | int value =>
      simp only [Json.outsideByte, Json.passesAsByte, Bool.and_self_left]
    | _ => exact Iff.rfl
  rw [List.length_filterMap_eq_countP, hpasses,
    List.countP_eq_countP_filter_add payload Json.outsideByte Json.passesAsByte,
    List.countP_filter, List.countP_filter, Nat.add_comm]
  congr 1
  exact List.countP_congr fun entry _ => by rw [isSome_narrowing?]

/-- An integer that is no byte is reported when it is cut, with its low 32 bits and the byte that
is stored, in the order of the payload and once for each entry; bytes and values that are no
numbers are not reported. There is one exception: an integer that is no byte but whose low 32 bits
are those of one is stored in silence. No integer less than 2^32 and greater than 255 - 2^32 is
such, so among these all that are no bytes are reported. -/
theorem narrowing_reported (bank : Bank) (payload : List Json) (hlength : 3 ≤ payload.length)
    (hfloat : ∀ entry ∈ payload, entry.isFloat = false) :
    let reports := (bank.flashJson payload).2.2.filter (·.Reports .maskedValue)
    reports = payload.filterMap (fun
      | .int value =>
        if 255 < value % 4294967296 then
          some ⟨.info, bank.source, "MaskedValue: 0x" ++
            Text.hexNat 1 (value % 4294967296).toNat ++ " stored as 0x" ++
            Text.hexByte (.ofNat (value % 256).toNat)⟩
        else none
      | _ => none) ∧
    reports.length + payload.countP Json.passesAsByte = payload.countP Json.outsideByte ∧
    ((∀ value, Json.int value ∈ payload → -4294967041 < value ∧ value < 4294967296) →
      reports.length = payload.countP Json.outsideByte) := by
  intro reports
  have hreports : reports = payload.filterMap (narrowing? bank.source) :=
    bank.filter_flashJson hlength hfloat
  have hcount := length_narrowing_add bank.source payload
  refine ⟨hreports.trans ?_, hreports ▸ hcount, fun hbounded => ?_⟩
  · refine List.filterMap_congr fun entry _ => ?_
    cases entry <;> rfl
  · have hpasses : payload.countP Json.passesAsByte = 0 := by
      refine List.countP_eq_zero.mpr fun entry hentry => ?_
      cases entry with
      | int value =>
        obtain ⟨hlow, hhigh⟩ := hbounded value hentry
        rw [Json.not_passesAsByte hlow hhigh]
        exact Bool.false_ne_true
      | _ => exact Bool.false_ne_true
    rw [hreports, ← hcount, hpasses, Nat.add_zero]

/-- Three integers that are no bytes, of which the first one passes as a byte. -/
theorem narrowing_reported_beside_silence :
    let bank : Bank := ⟨"bank", 0, #[0, 0, 0, 0], "bank"⟩
    let payload : List Json :=
      [.int 0, .int 0, .int 4294967296, .int (-1), .int 427, .int 8, .string "8"]
    3 ≤ payload.length ∧ (∀ entry ∈ payload, entry.isFloat = false) ∧
      (bank.flashJson payload).2.2.filter (·.Reports .maskedValue) =
        [⟨.info, "bank", "MaskedValue: 0xFFFFFFFF stored as 0xFF"⟩,
          ⟨.info, "bank", "MaskedValue: 0x1AB stored as 0xAB"⟩] ∧
      payload.countP Json.outsideByte = 3 := by
  intro bank payload
  have hlength : 3 ≤ payload.length := by decide
  have hfloat : ∀ entry ∈ payload, entry.isFloat = false := by simp [payload, Json.isFloat]
  obtain ⟨hreports, -, -⟩ := bank.narrowing_reported payload hlength hfloat
  exact ⟨hlength, hfloat, hreports.trans (by decide +kernel), by decide⟩

/-- An integer of 33 bits is stored as zero, and nothing is reported. -/
theorem flashJson_silent :
    let bank : Bank := ⟨"bank", 0, #[0, 0, 0, 0], "bank"⟩
    let payload : List Json := [.int 0, .int 0, .int 4294967296]
    (bank.flashJson payload).2.2.countP (·.Reports .maskedValue) = 0 ∧
      payload.countP Json.outsideByte = 1 := by
  decide +kernel

end Bank

end AppleOne
