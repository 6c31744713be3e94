import AppleOne.Machine.Handle

/-!
# Stretches of memory

A host may ask for a stretch of memory that starts at any signed number of 64 bits and is as long
as it likes. It gets the bytes of the addresses that there are, with zeros in all other places,
and at most as many as there are addresses. Where counting on from the start would leave the 64
bits, the addresses are outside the address space already, so that nothing is lost.

## Main definitions

* `Bus.byteAt`: the byte at any whole number.

## Main results

* `Bus.toInt_further`, `Bus.peekAt_further`: addresses of 64 bits against whole numbers.
* `Bus.peekSpan_eq`: a stretch, byte by byte.
* `Bus.peekSpan_append`: a stretch in two pieces.
* `Bus.stretch_exact`: what a host is shown.
-/

namespace AppleOne.Bus

/-- The byte at any whole number as address, zero outside the address space. -/
def byteAt (bus : Bus) (address : Int) : UInt8 :=
  if 0 ≤ address ∧ address ≤ 0xFFFF then bus.peek address.toNat.toUInt16 else 0

/-- Going further on adds the offset, and stops at the largest address. -/
theorem toInt_further (address : Int64) {offset : Nat} (h : offset < maxSpan) :
    (further address offset.toInt64).toInt =
      min (address.toInt + offset) Int64.maxValue.toInt := by
  have hoffset : offset.toInt64.toInt = offset := by
    refine Int64.toInt_ofNat_of_lt ?_
    simp only [maxSpan] at h
    omega
  have hlow : Int64.minValue.toInt ≤ address.toInt := address.minValue_le_toInt
  unfold further
  rw [hoffset]
  by_cases hbeyond : Int64.maxValue.toInt < address.toInt + offset
  · have hclamp : Int64.ofIntClamp (address.toInt + offset) = Int64.maxValue := by
      rw [Int64.ofIntClamp, dif_pos (by omega), dif_neg (by omega)]
    rw [hclamp, Int.min_eq_right (by omega)]
  · have hwithin : address.toInt + offset ≤ Int64.maxValue.toInt := Int.not_lt.mp hbeyond
    rw [Int64.toInt_ofIntClamp (by omega) hwithin, Int.min_eq_left hwithin]

/-- An address within the address space is not changed by being cut to 16 bits. -/
theorem peekAt_eq (bus : Bus) (address : Int64) :
    bus.peekAt address = bus.byteAt address.toInt := by
  have hlow : 0 ≤ address ↔ 0 ≤ address.toInt := Int64.le_iff_toInt_le
  have hhigh : address ≤ 0xFFFF ↔ address.toInt ≤ 0xFFFF := Int64.le_iff_toInt_le
  unfold peekAt byteAt
  simp only [hlow, hhigh]
  split
  · next hinside =>
    have hcut : address.toUInt64.toUInt16 = address.toInt.toNat.toUInt16 := by
      refine UInt16.toNat_inj.mp ?_
      rw [UInt64.toNat_toUInt16, Int64.toNat_toUInt64_of_le (hlow.mpr hinside.1)]
      rfl
    rw [hcut]
  · rfl

/-- What lies so far up that the largest address stands for it is outside the address space. -/
theorem peekAt_further (bus : Bus) (start : Int64) {offset : Nat} (h : offset < maxSpan) :
    bus.peekAt (further start offset.toInt64) = bus.byteAt (start.toInt + offset) := by
  have hlast : Int64.maxValue.toInt = 0x7FFFFFFFFFFFFFFF := rfl
  rw [peekAt_eq, toInt_further start h]
  by_cases hbeyond : Int64.maxValue.toInt < start.toInt + offset
  · rw [Int.min_eq_right (by omega), byteAt, byteAt, if_neg (by omega), if_neg (by omega)]
  · rw [Int.min_eq_left (Int.not_lt.mp hbeyond)]

/-- A stretch consists of the bytes at the whole numbers from its start on. -/
theorem peekSpan_eq (bus : Bus) (start : Int64) (length : Nat) :
    bus.peekSpan start.toInt length =
      (List.range (min length maxSpan)).map fun (offset : Nat) =>
        bus.byteAt (start.toInt + (offset : Int)) := by
  have hstart : start.toInt.toInt64 = start := Int64.ofInt_toInt start
  refine List.map_congr_left fun offset hoffset => ?_
  have hlt : offset < maxSpan :=
    Nat.lt_of_lt_of_le (List.mem_range.mp hoffset) (Nat.min_le_right _ _)
  rw [hstart, peekAt_further bus start hlt]

/-- A stretch is read in two pieces, the second of which starts where the first one ends. -/
theorem peekSpan_append (bus : Bus) {start next : Int64} {first second : Nat}
    (h : first + second ≤ maxSpan) (hnext : next.toInt = start.toInt + first) :
    bus.peekSpan start.toInt first ++ bus.peekSpan next.toInt second =
      bus.peekSpan start.toInt (first + second) := by
  have hfirst : min first maxSpan = first := Nat.min_eq_left (by omega)
  have hsecond : min second maxSpan = second := Nat.min_eq_left (by omega)
  have hwhole : min (first + second) maxSpan = first + second := Nat.min_eq_left h
  rw [peekSpan_eq, peekSpan_eq, peekSpan_eq, hfirst, hsecond, hwhole, List.range_add,
    List.map_append, List.map_map, hnext]
  congr 1
  refine List.map_congr_left fun offset _ => ?_
  rw [Function.comp_apply, Int.natCast_add, Int.add_assoc]

/-- Whatever signed number of 64 bits a stretch starts at, and whatever number of 64 bits its
length is, a host is shown that many bytes, or 65536 if it asks for more, and the machine stays as
it is. Each byte is the one that a peek at its address shows, or zero if there is no such address.
Asking for a stretch at once or in two pieces makes no difference. -/
theorem stretch_exact (bus : Bus) (start : Int64) (length : UInt64) :
    let bytes := bus.peekSpan start.toInt length.toNat
    bytes.length = min length.toNat 65536 ∧
    (∀ offset < min length.toNat 65536, bytes[offset]? =
      some (if 0 ≤ start.toInt + offset ∧ start.toInt + offset ≤ 65535 then
        bus.peek (start.toInt + offset).toNat.toUInt16 else 0)) ∧
    (∀ (next : Int64) (first second : UInt64), first.toNat + second.toNat ≤ 65536 →
      next.toInt = start.toInt + first.toNat →
      bus.peekSpan start.toInt first.toNat ++ bus.peekSpan next.toInt second.toNat =
        bus.peekSpan start.toInt (first.toNat + second.toNat)) ∧
    ∀ (machine : Machine) (time : Time), machine.bus = bus →
      machine.handle time (.getMemoryRange start.toInt length.toNat) =
        (.memory bytes, machine) := by
  intro bytes
  have hbytes : bytes = (List.range (min length.toNat maxSpan)).map fun (offset : Nat) =>
      bus.byteAt (start.toInt + (offset : Int)) := bus.peekSpan_eq start length.toNat
  refine ⟨?_, fun offset hoffset => ?_, fun next first second hfits hnext => ?_, ?_⟩
  · rw [hbytes, List.length_map, List.length_range]
    rfl
  · have hwithin : offset < min length.toNat maxSpan := hoffset
    rw [hbytes, List.getElem?_map, List.getElem?_range hwithin]
    rfl
  · exact bus.peekSpan_append hfits hnext
  · rintro machine time rfl
    rfl

/-- Two bytes before the first address and three from there on, of which the machine has RAM for
two, in one piece and in two; and a stretch that starts at the largest number. -/
theorem stretch_exact_around_zero :
    let bus : Bus :=
      { mappings := [⟨0, 1, "ram", .ram ⟨"ram", 0, #[0xA9, 0x12], "ram"⟩⟩], log := .empty 1 }
    bus.peekSpan (-2) 3 ++ bus.peekSpan 1 2 = [0, 0, 0xA9, 0x12, 0] ∧
      (bus.peekSpan Int64.maxValue.toInt 2).length = 2 ∧
      (bus.peekSpan Int64.maxValue.toInt 2)[1]? = some 0 := by
  intro bus
  obtain ⟨-, -, happend, -⟩ := bus.stretch_exact (-2) 5
  obtain ⟨hlength, hbytes, -⟩ := bus.stretch_exact Int64.maxValue 2
  have hpieces := happend 1 3 2 (by decide) (by decide)
  exact ⟨hpieces.trans (by decide +kernel), hlength, hbytes 1 (by decide)⟩

end AppleOne.Bus
