import AppleOne.Log.Basic

/-!
# Memory as the processor sees it

The processor reaches everything outside itself through sixteen-bit addresses. A
`Memory` answers reads, takes writes and, unlike the hardware, can be inspected
without disturbing it. A read may change the memory, since reading a device
register has effects of its own.

## Main definitions

* `Memory`: the interface.
* `PlainMemory`: 64 KiB of plain storage.
* `TracedMemory`: any memory with a list of the accesses made to it.
-/

namespace AppleOne

/-- What the processor needs of the world outside it. -/
class Memory (M : Type) where
  /-- Reads the byte at an address. -/
  read : M → UInt16 → UInt8 × M
  /-- Writes a byte to an address. -/
  write : M → UInt16 → UInt8 → M
  /-- The byte a read would return, without the effects of a read. -/
  peek : M → UInt16 → UInt8
  /-- Keeps a message in the log that goes with the memory. -/
  report : M → Note → M

/-- One byte passing between the processor and its memory. -/
inductive Access where
  | read (address : UInt16) (value : UInt8)
  | write (address : UInt16) (value : UInt8)
  deriving DecidableEq, Repr

/-- Plain storage at all 65536 addresses, with a log. -/
structure PlainMemory where
  bytes : Vector UInt8 65536
  log : Log

namespace PlainMemory

/-- Storage that holds zeros. -/
def zeros (logCapacity : Nat) : PlainMemory where
  bytes := Vector.replicate 65536 0
  log := Log.empty logCapacity

/-- The byte at an address. -/
def get (memory : PlainMemory) (address : UInt16) : UInt8 :=
  memory.bytes.get ⟨address.toNat, UInt16.toNat_lt address⟩

/-- Replaces the byte at an address. -/
def set (memory : PlainMemory) (address : UInt16) (value : UInt8) : PlainMemory :=
  { memory with bytes := memory.bytes.set address.toNat value (UInt16.toNat_lt address) }

/-- Copies a block of bytes to consecutive addresses, wrapping at the top. -/
def load (memory : PlainMemory) (address : UInt16) : List UInt8 → PlainMemory
  | [] => memory
  | byte :: rest => load (memory.set address byte) (address + 1) rest

instance : Memory PlainMemory where
  read memory address := (memory.get address, memory)
  write := set
  peek := get
  report memory note := { memory with log := memory.log.add note }

end PlainMemory

/-- A memory together with the accesses made to it, newest first. -/
structure TracedMemory (M : Type) where
  memory : M
  accesses : List Access := []

namespace TracedMemory

variable {M : Type}

instance [Memory M] : Memory (TracedMemory M) where
  read traced address :=
    let (value, memory) := Memory.read traced.memory address
    (value, ⟨memory, .read address value :: traced.accesses⟩)
  write traced address value :=
    ⟨Memory.write traced.memory address value, .write address value :: traced.accesses⟩
  peek traced := Memory.peek traced.memory
  report traced note := { traced with memory := Memory.report traced.memory note }

/-- The accesses since the last call, oldest first. -/
def takeAccesses (traced : TracedMemory M) : List Access × TracedMemory M :=
  (traced.accesses.reverse, { traced with accesses := [] })

end TracedMemory

end AppleOne
