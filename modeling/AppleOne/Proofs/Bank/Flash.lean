import AppleOne.Proofs.Bus.Decode
import AppleOne.Proofs.Cpu.Timing

/-!
# Flashing

Data that are flashed go to absolute addresses, and the bank keeps those that meet it. The data
may begin before the bank, end behind it, cover it or miss it, so the offset at which they begin
is a whole number that can be negative.

A payload of arbitrary values stands for bytes. Flashing the values is flashing these bytes, with
more to report.

## Main definitions

* `Bank.covering?`: the byte that data hold for an offset.
* `Bank.Placed`: each byte of the data is at its address, and all else is as it was.
* `Json.lowByte`: the byte that a value stands for.

## Main results

* `Bank.getElem?_overlay`, `Bank.fst_overlay`: data at consecutive offsets, and how many are kept.
* `Bank.placed_overlayAt`: data at an absolute address.
* `Bank.flashJson_eq`: values against the bytes that they stand for.
* `Bank.flash_exact`: what flashing does.
-/

namespace AppleOne

/-! ## Offsets -/

namespace Bank

/-- The byte that data placed from `base` on hold for an offset, if they hold one for it. -/
def covering? (base : Int) (bytes : List UInt8) (offset : Nat) : Option UInt8 :=
  if base ≤ offset then bytes[(offset - base).toNat]? else none

theorem covering?_cons (base : Int) (byte : UInt8) (rest : List UInt8) (offset : Nat) :
    covering? base (byte :: rest) offset =
      if base = offset then some byte else covering? (base + 1) rest offset := by
  unfold covering?
  rcases Int.lt_trichotomy base offset with hbefore | rfl | hbehind
  · have hdistance : (offset - base).toNat = (offset - (base + 1)).toNat + 1 := by omega
    rw [if_pos (by omega), if_neg (by omega), if_pos (by omega), hdistance,
      List.getElem?_cons_succ]
  · simp
  · rw [if_neg (by omega), if_neg (by omega), if_neg (by omega)]

/-- Placing data replaces the bytes for which they hold one, and no others. -/
theorem getElem?_overlay (data : Array UInt8) (base : Int) (stored : Nat) (bytes : List UInt8)
    (offset : Nat) :
    (overlay data base stored bytes).2[offset]? =
      data[offset]?.map fun byte => (covering? base bytes offset).getD byte := by
  -- the rest of the data begins one offset later, whether or not the first byte was kept
  induction bytes generalizing data base stored with
  | nil => simp [overlay, covering?]
  | cons byte rest ih =>
    rw [covering?_cons]
    unfold overlay
    split
    · next hinside =>
      rw [ih, Array.getElem?_setIfInBounds]
      by_cases hhere : base = offset
      · -- what follows lies behind this offset
        have hrest : covering? (base + 1) rest offset = none := if_neg (by omega)
        have hlt : offset < data.size := by omega
        rw [if_pos (by omega), if_pos (by omega), if_pos hhere, hrest,
          Array.getElem?_eq_getElem hlt]
        rfl
      · rw [if_neg (by omega), if_neg hhere]
    · next houtside =>
      rw [ih]
      by_cases hhere : base = offset
      · -- the byte for this offset was dropped because there is no such offset
        rw [Array.getElem?_eq_none (by omega)]
        rfl
      · rw [if_neg hhere]

/-- How many of so many bytes placed from `base` on meet a block of some size. -/
def met (base : Int) (size count : Nat) : Nat :=
  (List.range count).countP fun (index : Nat) => 0 ≤ base + index ∧ base + index < size

theorem met_succ (base : Int) (size count : Nat) :
    met base size (count + 1) =
      met (base + 1) size count + if 0 ≤ base ∧ base < size then 1 else 0 := by
  unfold met
  rw [List.range_succ_eq_map, List.countP_cons, List.countP_map]
  congr 1
  · refine List.countP_congr fun index _ => ?_
    simp only [Function.comp_apply, decide_eq_true_eq]
    omega
  · simp

/-- The bytes that meet the block are counted. -/
theorem fst_overlay (data : Array UInt8) (base : Int) (stored : Nat) (bytes : List UInt8) :
    (overlay data base stored bytes).1 = stored + met base data.size bytes.length := by
  induction bytes generalizing data base stored with
  | nil => rfl
  | cons byte rest ih =>
    rw [List.length_cons, met_succ]
    unfold overlay
    split
    · rw [ih, Array.size_setIfInBounds]
      omega
    · exact ih data (base + 1) stored

/-! ## Addresses -/

/-- What placing data at an absolute address makes of a bank. -/
structure Placed (bank after : Bank) (address : Nat) (data : List UInt8) : Prop where
  /-- The bank keeps its id, its origin and the name under which it reports. -/
  fixed : after = { bank with data := after.data }
  size : after.size = bank.size
  /-- A byte of the bank whose address one of the data has is that one. -/
  inside : ∀ offset < bank.size, ∀ index byte, data[index]? = some byte →
    bank.origin.toNat + offset = address + index → after.data[offset]? = some byte
  /-- All other bytes stay. -/
  outside : ∀ offset, (∀ index < data.length, bank.origin.toNat + offset ≠ address + index) →
    after.data[offset]? = bank.data[offset]?

variable (bank : Bank)

theorem placed_overlayAt (address : UInt16) (bytes : List UInt8) :
    Placed bank (bank.overlayAt address bytes).2.1 address.toNat bytes where
  fixed := rfl
  size := size_overlay _ _ _ _
  inside := by
    intro offset hoffset index byte hbyte haddress
    have hcovering : covering? (address.toNat - bank.origin.toNat) bytes offset = some byte := by
      -- the data may begin below the bank, so places in it are counted as integers
      have hindex : ((offset : Int) - (address.toNat - bank.origin.toNat)).toNat = index := by
        omega
      rw [covering?, if_pos (by omega), hindex, hbyte]
    refine (getElem?_overlay _ _ _ _ _).trans ?_
    rw [hcovering, Array.getElem?_eq_getElem hoffset]
    rfl
  outside := by
    intro offset hother
    have hcovering : covering? (address.toNat - bank.origin.toNat) bytes offset = none := by
      unfold covering?
      split
      · refine List.getElem?_eq_none (Nat.le_of_not_lt fun hindex => ?_)
        exact hother _ hindex (by omega)
      · rfl
    refine (getElem?_overlay _ _ _ _ _).trans ?_
    rw [hcovering]
    exact Option.map_id'

/-- The bytes that meet the bank are counted by their addresses. -/
theorem fst_overlayAt (address : UInt16) (bytes : List UInt8) :
    (bank.overlayAt address bytes).1 = (List.range bytes.length).countP fun index =>
      bank.origin.toNat ≤ address.toNat + index ∧
        address.toNat + index < bank.origin.toNat + bank.size := by
  refine (fst_overlay _ _ _ _).trans ((Nat.zero_add _).trans ?_)
  refine List.countP_congr fun index _ => ?_
  have hsize : bank.size = bank.data.size := rfl
  rw [decide_eq_true_eq, decide_eq_true_eq]
  omega

/-- There is a report if some of the bytes miss the bank. -/
theorem notes_overlayAt (address : UInt16) (bytes : List UInt8) :
    (bank.overlayAt address bytes).2.2 =
      if (bank.overlayAt address bytes).1 = bytes.length then [] else
        [Fault.outOfBounds.note bank.source
          (toString (bytes.length - (bank.overlayAt address bytes).1) ++
            " flashed bytes from 0x" ++ Text.hexWord address ++ " fall outside bank '" ++
            bank.id ++ "'")] := by
  have hle : (bank.overlayAt address bytes).1 ≤ bytes.length := by
    rw [fst_overlayAt]
    exact Nat.le_trans List.countP_le_length (Nat.le_of_eq List.length_range)
  have hdropped : bytes.length - (bank.overlayAt address bytes).1 = 0 ↔
      (bank.overlayAt address bytes).1 = bytes.length := by omega
  exact if_congr hdropped rfl rfl

/-- A payload that is long enough is placed at the address with which it begins. -/
theorem flash_cons (low high byte : UInt8) (bytes : List UInt8) :
    bank.flash (low :: high :: byte :: bytes) =
      (.ok (bank.overlayAt (Cpu.word low high) (byte :: bytes)).1,
        (bank.overlayAt (Cpu.word low high) (byte :: bytes)).2) := rfl

/-- A payload that is too short is turned down. -/
theorem flash_of_length_lt {payload : List UInt8} (h : payload.length < 3) :
    bank.flash payload =
      (.error (.tooShort payload.length), bank, [bank.rejection payload.length]) := by
  unfold flash
  split
  · simp only [List.length_cons] at h
    omega
  · rfl

/-! ## Values -/

end Bank

/-- The byte that a value stands for in a payload: the low eight bits of an integer, and zero for
what is no number. -/
def Json.lowByte : Json → UInt8
  | .int value => .ofNat (value % 256).toNat
  | _ => 0

/-- Whether a value is a number with a fraction or beyond the 64-bit integers. -/
def Json.isFloat : Json → Bool
  | .float _ => true
  | _ => false

/-- Whether a value is an integer. -/
def Json.isInt : Json → Bool
  | .int _ => true
  | _ => false

namespace Bank

/-- Of an integer the low 32 bits are taken, in two's complement. -/
theorem toNat_lowBits (value : Int) :
    (value.toInt64.toUInt64.toUInt32.toNat : Int) = value % 4294967296 := by
  have hwide : value.toInt64.toUInt64.toNat = (value % 18446744073709551616).toNat :=
    BitVec.toNat_ofInt value
  rw [UInt64.toNat_toUInt32, hwide]
  omega

/-- A number is cut to its low eight bits. -/
theorem fst_narrow (bank : Bank) (value : UInt32) : (bank.narrow value).1 = value.toUInt8 := by
  unfold narrow
  split <;> rfl

/-- An entry is cut to the byte that it stands for. -/
theorem fst_entryByte (bank : Bank) {entry : Json} (h : entry.isFloat = false) :
    (bank.entryByte entry).1 = entry.lowByte := by
  cases entry with
  | float value => cases h
  | int value =>
    have hbits := toNat_lowBits value
    have hbyte : (value % 256).toNat < UInt8.size :=
      (Int.toNat_lt (Int.emod_nonneg _ (by decide))).mpr (Int.emod_lt_of_pos _ (by decide))
    refine (fst_narrow bank value.toInt64.toUInt64.toUInt32).trans (UInt8.toNat_inj.mp ?_)
    rw [UInt32.toNat_toUInt8, Json.lowByte, UInt8.toNat_ofNat_of_lt' hbyte]
    omega
  | _ => rfl

/-- An entry is counted as no number if it is no integer. -/
theorem isNone_lowBits? {entry : Json} (h : entry.isFloat = false) :
    (lowBits? entry).isNone = !entry.isInt := by
  cases entry with
  | float value => cases h
  | _ => rfl

/-- What is reported of an entry is that it was cut. -/
theorem reports_entryByte (bank : Bank) {entry : Json} {note : Note}
    (h : (bank.entryByte entry).2 = some note) : note.Reports .maskedValue := by
  unfold entryByte narrow at h
  split at h
  · split at h
    · cases h
    · exact ⟨_, _, (Option.some.inj h).symm⟩
  · cases h

/-- Flashing values is flashing the bytes that they stand for, after reports of what was cut and
of what is no number. -/
theorem flashJson_eq (bank : Bank) {payload : List Json} (hlength : 3 ≤ payload.length)
    (hfloat : ∀ entry ∈ payload, entry.isFloat = false) :
    bank.flashJson payload =
      ((bank.flash (payload.map Json.lowByte)).1, (bank.flash (payload.map Json.lowByte)).2.1,
        payload.filterMap (fun entry => (bank.entryByte entry).2) ++
          bank.coercion (payload.countP fun entry => !entry.isInt) ++
          (bank.flash (payload.map Json.lowByte)).2.2) := by
  have hbytes : (payload.map bank.entryByte).map (·.1) = payload.map Json.lowByte := by
    rw [List.map_map]
    exact List.map_congr_left fun entry hentry => fst_entryByte bank (hfloat entry hentry)
  have hcoerced : payload.countP (fun entry => (lowBits? entry).isNone) =
      payload.countP fun entry => !entry.isInt :=
    List.countP_congr fun entry hentry => by rw [isNone_lowBits? (hfloat entry hentry)]
  unfold flashJson
  rw [if_neg (Nat.not_lt.mpr hlength)]
  simp only [hbytes, hcoerced, List.filterMap_map]
  rfl

/-- Flashing places every byte at its address and changes nothing else, for every bank and every
payload: the address stands at the beginning of the payload, its low byte first, and the bytes
that miss the bank are dropped and reported together. A payload without data is turned down.
Flashing values that are no doubles is flashing the bytes that they stand for; a single further
report says how many of them are no numbers. -/
theorem flash_exact (bank : Bank) :
    (∀ (low high : UInt8) (data : List UInt8), data ≠ [] →
      let address := low.toNat + 256 * high.toNat
      let stored := (List.range data.length).countP fun index =>
        bank.origin.toNat ≤ address + index ∧ address + index < bank.origin.toNat + bank.size
      ∃ after, Placed bank after address data ∧
        bank.flash (low :: high :: data) = (.ok stored, after,
          if stored = data.length then [] else
            [⟨.warn, bank.source, "OutOfBounds: " ++ toString (data.length - stored) ++
              " flashed bytes from 0x" ++ Text.hexWord (.ofNat address) ++
              " fall outside bank '" ++ bank.id ++ "'"⟩])) ∧
    (∀ payload : List UInt8, payload.length < 3 → bank.flash payload =
      (.error (.tooShort payload.length), bank, [bank.rejection payload.length])) ∧
    ∀ payload : List Json, (∀ entry ∈ payload, entry.isFloat = false) →
      let flashed := bank.flash (payload.map Json.lowByte)
      let coerced := payload.countP fun entry => !entry.isInt
      if payload.length < 3 then bank.flashJson payload = flashed
      else ∃ masked, (∀ note ∈ masked, note.Reports .maskedValue) ∧
        bank.flashJson payload = (flashed.1, flashed.2.1, masked ++
          (if coerced = 0 then [] else
            [⟨.warn, bank.source, "InvalidFlashData: " ++ toString coerced ++
              " non-numeric entries in flash payload for '" ++ bank.id ++ "' coerced to 0"⟩]) ++
          flashed.2.2) := by
  refine ⟨fun low high data hdata => ?_, fun payload hshort => ?_, fun payload hfloat => ?_⟩
  · obtain ⟨byte, bytes, rfl⟩ := List.exists_cons_of_ne_nil hdata
    intro address stored
    have haddress : (Cpu.word low high).toNat = address :=
      (Cpu.toNat_word low high).trans (by omega)
    have hword : Cpu.word low high = .ofNat address := by
      rw [← haddress, UInt16.ofNat_toNat]
    -- both are about the address as a word, the statement is about it as a number
    have hplaced := bank.placed_overlayAt (Cpu.word low high) (byte :: bytes)
    have hstored := bank.fst_overlayAt (Cpu.word low high) (byte :: bytes)
    rw [haddress] at hplaced hstored
    refine ⟨_, hplaced, (bank.flash_cons low high byte bytes).trans ?_⟩
    rw [hstored, ← hword]
    refine Prod.ext rfl (Prod.ext rfl ?_)
    rw [notes_overlayAt, hstored]
    rfl
  · exact bank.flash_of_length_lt hshort
  · intro flashed coerced
    have hlength : (payload.map Json.lowByte).length = payload.length := List.length_map _
    split
    · next hshort =>
      rw [show flashed = _ from bank.flash_of_length_lt (hlength ▸ hshort), hlength]
      exact if_pos hshort
    · next hlong =>
      refine ⟨_, fun note hnote => ?_, bank.flashJson_eq (Nat.not_lt.mp hlong) hfloat⟩
      obtain ⟨entry, -, hentry⟩ := List.mem_filterMap.mp hnote
      exact reports_entryByte bank hentry

/-- Four bytes from address 2 on, of which the bank has room for two, as bytes and as values. -/
theorem flash_exact_around_start :
    let bank : Bank := ⟨"ram", 4, #[1, 2, 3], "ram"⟩
    (∃ after, Placed bank after 2 [9, 8, 7, 6] ∧ after.data[0]? = some 7 ∧
      after.data[1]? = some 6 ∧ after.data[2]? = some 3 ∧
      (bank.flash [2, 0, 9, 8, 7, 6]).1 = .ok 2) ∧
    (bank.flash [2, 0]).1 = .error (.tooShort 2) ∧
    ∃ masked, (bank.flashJson [.int 258, .int (-256), .null, .string "8", .int 7, .int 6]).2.2 =
      masked ++ [⟨.warn, "ram",
        "InvalidFlashData: 2 non-numeric entries in flash payload for 'ram' coerced to 0"⟩] ++
      (bank.flash [2, 0, 0, 0, 7, 6]).2.2 := by
  intro bank
  obtain ⟨hplaces, hshort, hvalues⟩ := bank.flash_exact
  refine ⟨?_, congrArg Prod.fst (hshort [2, 0] (by decide)), ?_⟩
  · obtain ⟨after, hplaced, hflash⟩ := hplaces 2 0 [9, 8, 7, 6] (by decide)
    refine ⟨after, hplaced, hplaced.inside 0 (by decide) 2 7 rfl rfl,
      hplaced.inside 1 (by decide) 3 6 rfl rfl, ?_, ?_⟩
    · -- the third byte of the bank lies behind all four
      exact (hplaced.outside 2 (by decide)).trans rfl
    · rw [hflash]
      rfl
  · obtain ⟨masked, -, hflash⟩ :=
      hvalues [.int 258, .int (-256), .null, .string "8", .int 7, .int 6] (by simp [Json.isFloat])
    exact ⟨masked, congrArg (·.2.2) hflash⟩

end Bank

end AppleOne
