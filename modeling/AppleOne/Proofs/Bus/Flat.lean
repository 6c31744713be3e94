import AppleOne.Proofs.Bus.Access
import AppleOne.Proofs.Cpu.Simulation

/-!
# The bus as flat memory

Where every address is served by RAM that has a byte for it, the bus is a memory of 65536
bytes: a read has the byte that was written last, and a write changes one byte. How many
mappings there are and how they overlap does not matter, because an address has its byte
in the first mapping that holds it and in no other.

So a processor on such a bus cannot be told from a processor on plain storage.

## Main definitions

* `Bus.RamAt`: an address is served by RAM; `Bus.RamBacked`: every address is.
* `Bus.Mirrors`: plain storage that holds the byte of every address.

## Main results

* `Bus.RamAt.peek_write`: a byte in RAM changes when it is written.
* `Bus.mirrors_simulation`: the bus and plain storage answer alike.
* `Bus.session_of_mirrors`: processors on them do the same.
-/

namespace AppleOne

/-! ## Banks -/

namespace Bank

variable {bank : Bank} {offset : UInt16}

theorem read_of_lt (h : offset.toNat < bank.size) : bank.read offset = (bank.peek offset, none) :=
  if_pos h

@[simp] theorem size_store (value : UInt8) : (bank.store offset value).1.size = bank.size := by
  unfold store size
  split <;> simp

/-- A byte that is stored inside a bank is found again, and no other byte changes. -/
theorem peek_store (h : offset.toNat < bank.size) (value : UInt8) (other : UInt16) :
    (bank.store offset value).1.peek other = if other = offset then value else bank.peek other := by
  have hiff : other.toNat = offset.toNat ↔ other = offset := UInt16.toNat_inj
  unfold store peek
  rw [if_pos h]
  simp only [Array.getD_eq_getD_getElem?, Array.getElem?_setIfInBounds, eq_comm (a := offset.toNat),
    hiff]
  split
  · have hsize : offset.toNat < bank.data.size := h
    simp [*]
  · rfl

/-- The same where the byte that is looked at is inside the bank. -/
theorem peek_store_of_lt {other : UInt16} (h : other.toNat < bank.size) (value : UInt8)
    (offset : UInt16) :
    (bank.store offset value).1.peek other = if other = offset then value else bank.peek other := by
  by_cases hoffset : offset.toNat < bank.size
  · exact peek_store hoffset value other
  · have hne : other ≠ offset := fun heq => hoffset (heq ▸ h)
    rw [store, if_neg hoffset, if_neg hne]

end Bank

namespace PlainMemory

/-- A byte that is stored is found again, and no other byte changes. -/
theorem get_set (memory : PlainMemory) (address other : UInt16) (value : UInt8) :
    (memory.set address value).get other = if other = address then value else memory.get other := by
  have hlt : other.toNat < 65536 := UInt16.toNat_lt other
  have hget (memory : PlainMemory) : memory.get other = memory.bytes[other.toNat] := rfl
  have hiff : address.toNat = other.toNat ↔ other = address :=
    eq_comm.trans UInt16.toNat_inj
  simp only [hget, set, Vector.getElem_set, hiff]

end PlainMemory

/-! ## Addresses with RAM -/

namespace Bus

variable {bus : Bus} {accessed address : UInt16}

/-- The address is served by RAM that has a byte for it. -/
def RamAt (bus : Bus) (address : UInt16) : Prop :=
  ∃ start last name bank, bus.serving? address = some ⟨start, last, name, .ram bank⟩ ∧
    (address - start).toNat < bank.size

namespace RamAt

theorem read_value (h : bus.RamAt address) : (bus.read address).1 = bus.peek address := by
  obtain ⟨start, last, name, bank, hserving, hlt⟩ := h
  rw [Bus.read_value, peek, hserving]
  exact congrArg Prod.fst (Bank.read_of_lt hlt)

/-- No read changes what is served by RAM. -/
theorem serving?_read (h : bus.RamAt address) (accessed : UInt16) :
    (bus.read accessed).2.serving? address = bus.serving? address := by
  obtain ⟨start, last, name, bank, hserving, hlt⟩ := h
  rw [Bus.serving?_read]
  split
  · rw [hserving]
    rfl
  · rfl

/-- Reading RAM changes nothing. -/
theorem serving?_read_of_accessed (h : bus.RamAt accessed) (address : UInt16) :
    (bus.read accessed).2.serving? address = bus.serving? address := by
  obtain ⟨start, last, name, bank, hserving, hlt⟩ := h
  rw [Bus.serving?_read]
  split
  · next heq =>
    rw [heq, hserving]
    rfl
  · rfl

theorem read (h : bus.RamAt address) (accessed : UInt16) : (bus.read accessed).2.RamAt address := by
  unfold RamAt
  rw [h.serving?_read]
  exact h

theorem write (h : bus.RamAt address) (accessed : UInt16) (value : UInt8) :
    (bus.write accessed value).RamAt address := by
  obtain ⟨start, last, name, bank, hserving, hlt⟩ := h
  unfold RamAt
  rw [serving?_write]
  split
  · rw [hserving]
    exact ⟨start, last, name, (bank.store (accessed - start) value).1, rfl, by simpa using hlt⟩
  · exact ⟨start, last, name, bank, hserving, hlt⟩

/-- A byte in RAM changes when it is written, and only then. -/
theorem peek_write (h : bus.RamAt address) (accessed : UInt16) (value : UInt8) :
    (bus.write accessed value).peek address =
      if address = accessed then value else bus.peek address := by
  obtain ⟨start, last, name, bank, hserving, hlt⟩ := h
  unfold peek
  rw [serving?_write]
  by_cases hsame : bus.serving? address = bus.serving? accessed
  · -- one bank holds both addresses, at different offsets unless they are the same
    have hiff : address - start = accessed - start ↔ address = accessed :=
      UInt16.sub_left_inj start
    rw [if_pos hsame, hserving, Option.map_some]
    refine (Bank.peek_store_of_lt hlt value (accessed - start)).trans ?_
    simp only [hiff]
    rfl
  · have hne : address ≠ accessed := fun heq => hsame (heq ▸ rfl)
    rw [if_neg hsame, if_neg hne]

/-- Writing RAM changes no other byte. -/
theorem peek_write_of_accessed (h : bus.RamAt accessed) (value : UInt8)
    (hne : address ≠ accessed) : (bus.write accessed value).peek address = bus.peek address := by
  obtain ⟨start, last, name, bank, hserving, hlt⟩ := h
  unfold peek
  rw [serving?_write]
  by_cases hsame : bus.serving? address = bus.serving? accessed
  · have hoffset : address - start ≠ accessed - start := mt (UInt16.sub_left_inj start).mp hne
    rw [if_pos hsame, hsame, hserving, Option.map_some]
    exact (Bank.peek_store hlt value (address - start)).trans (if_neg hoffset)
  · rw [if_neg hsame]

end RamAt

/-- Every address is served by RAM that has a byte for it. -/
def RamBacked (bus : Bus) : Prop :=
  ∀ address, ∃ start last name bank,
    bus.serving? address = some ⟨start, last, name, .ram bank⟩ ∧
      (address - start).toNat < bank.size

namespace RamBacked

theorem ramAt (h : bus.RamBacked) (address : UInt16) : bus.RamAt address := h address

theorem read (h : bus.RamBacked) (accessed : UInt16) : (bus.read accessed).2.RamBacked :=
  fun address => (h.ramAt address).read accessed

theorem peek_read (h : bus.RamBacked) (accessed address : UInt16) :
    (bus.read accessed).2.peek address = bus.peek address := by
  rw [peek, (h.ramAt address).serving?_read, peek]

theorem write (h : bus.RamBacked) (accessed : UInt16) (value : UInt8) :
    (bus.write accessed value).RamBacked :=
  fun address => (h.ramAt address).write accessed value

end RamBacked

/-! ## Plain storage with the same bytes -/

/-- Plain storage that holds the byte of every address of a bus with RAM everywhere. -/
structure Mirrors (bus : Bus) (plain : PlainMemory) : Prop where
  backed : bus.RamBacked
  peek : ∀ address, bus.peek address = plain.get address

/-- A bus with RAM everywhere and plain storage with its bytes answer alike. -/
theorem mirrors_simulation : Memory.Simulation Mirrors where
  read_value h address := (h.backed.ramAt address).read_value.trans (h.peek address)
  read h accessed :=
    ⟨h.backed.read accessed, fun address => (h.backed.peek_read accessed address).trans
      (h.peek address)⟩
  write h accessed value := by
    refine ⟨h.backed.write accessed value, fun address => ?_⟩
    refine ((h.backed.ramAt address).peek_write accessed value).trans ?_
    refine Eq.trans ?_ (PlainMemory.get_set _ accessed address value).symm
    rw [h.peek address]
  report h _ := ⟨h.backed, h.peek⟩

open Cpu in
/-- Two processors, one on a bus with RAM everywhere and one on plain storage with the
same bytes, that have the same registers, hook and bypass, give the same answers to any
list of requests, have the same registers after every request, and leave the same byte at
every address. -/
theorem session_of_mirrors {σ : Type} {plain : PlainMemory} (hbacked : bus.RamBacked)
    (hpeek : ∀ address, bus.peek address = plain.get address) (registers : Registers)
    (hook : Option (Hook σ)) (memo : σ) (bypass : Bool) (requests : List (Request σ)) :
    let onBus : Cpu Bus σ := { registers, memory := bus, hook, memo, bypass }
    let onPlain : Cpu PlainMemory σ := { registers, memory := plain, hook, memo, bypass }
    (onBus.session requests).1 = (onPlain.session requests).1 ∧
      ∀ address, Memory.peek (onBus.session requests).2.memory address =
        Memory.peek (onPlain.session requests).2.memory address := by
  intro onBus onPlain
  have halike : Alike Mirrors onBus onPlain := ⟨rfl, rfl, rfl, rfl, hbacked, hpeek⟩
  -- the simulation says nothing of peeks; that the last memories mirror each other does
  obtain ⟨hanswers, hlast⟩ := session_alike mirrors_simulation halike requests
  exact ⟨hanswers, hlast.memory.peek⟩

/-- Two banks of zeros, of which the first covers a part of the second. -/
def overlappingBanks : Bus where
  mappings := [⟨0, 0x7FFF, "low", .ram (.zeros "low" 0 0x8000 "low")⟩,
    ⟨0x4000, 0xFFFF, "high", .ram (.zeros "high" 0x4000 0xC000 "high")⟩]
  log := Log.empty 16

theorem ramBacked_overlappingBanks : overlappingBanks.RamBacked := by
  intro address
  by_cases h : address ≤ 0x7FFF
  · refine ⟨0, 0x7FFF, "low", .zeros "low" 0 0x8000 "low", ?_, ?_⟩
    · simp [serving?, overlappingBanks, Mapping.contains, h]
    · simp only [Bank.size, Bank.zeros, Array.size_replicate, UInt16.sub_zero]
      exact Nat.lt_succ_of_le h
  · -- the second bank serves what the first does not cover
    have hle : 0x4000 ≤ address ∧ address ≤ 0xFFFF := by
      simp only [UInt16.le_iff_toNat_le, UInt16.reduceToNat] at h ⊢
      have := UInt16.toNat_lt address
      omega
    refine ⟨0x4000, 0xFFFF, "high", .zeros "high" 0x4000 0xC000 "high", ?_, ?_⟩
    · simp [serving?, overlappingBanks, Mapping.contains, h, hle]
    · rw [UInt16.toNat_sub_of_le _ _ hle.1]
      simp only [Bank.size, Bank.zeros, Array.size_replicate, UInt16.reduceToNat]
      have := UInt16.toNat_lt address
      omega

theorem peek_overlappingBanks (address : UInt16) :
    overlappingBanks.peek address = (PlainMemory.zeros 16).get address := by
  have hzero (bank : String) (origin : UInt16) (size : Nat) (offset : UInt16) :
      (Bank.zeros bank origin size bank).peek offset = 0 := by
    simp only [Bank.peek, Bank.zeros, Array.getD_eq_getD_getElem?, Array.getElem?_replicate]
    split <;> rfl
  have hget : (PlainMemory.zeros 16).get address = 0 := by
    have hlt : address.toNat < 65536 := UInt16.toNat_lt address
    have hget : (PlainMemory.zeros 16).get address =
      (Vector.replicate 65536 (0 : UInt8))[address.toNat] := rfl
    simp [hget]
  rw [hget, peek]
  split
  · next mapping h =>
    have hmem := List.mem_of_find?_eq_some h
    simp only [overlappingBanks, List.mem_cons, List.not_mem_nil, or_false] at hmem
    rcases hmem with rfl | rfl
    · simp only [Component.peek, hzero]
    · simp only [Component.peek, hzero]
  · rfl

open Cpu in
/-- A processor on two overlapping banks, with a hook that refuses to go on at an address,
is interrupted, run and reset as one on plain storage is. -/
theorem session_of_mirrors_overlapping :
    let requests : List (Request Unit) :=
      [.requestIrq, .step, .runFor 100, .requestNmi, .singleStep, .withdrawIrq, .reset, .step]
    let hook : Option (Hook Unit) := some fun pc _ => (pc != 0x1000, ())
    let onBus : Cpu Bus Unit :=
      { registers := .initial, memory := overlappingBanks, hook, memo := () }
    let onPlain : Cpu PlainMemory Unit :=
      { registers := .initial, memory := .zeros 16, hook, memo := () }
    (onBus.session requests).1 = (onPlain.session requests).1 ∧
      ∀ address, Memory.peek (onBus.session requests).2.memory address =
        Memory.peek (onPlain.session requests).2.memory address :=
  session_of_mirrors ramBacked_overlappingBanks peek_overlappingBanks .initial _ () false _

end Bus

end AppleOne
