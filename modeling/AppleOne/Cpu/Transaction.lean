import AppleOne.Memory

/-!
# Transactions

A transaction is what the processor does on the bus in the course of one step: a
sequence of reads and writes, each of which may depend on the bytes read before,
that ends in a result. It says nothing of the memory that answers, so one and the
same transaction runs against any memory.

## Main definitions

* `Transaction`: the sequences.
* `Transaction.run`: a transaction carried out on a memory.
-/

namespace AppleOne.Cpu

/-- A sequence of bus accesses that ends in a result. -/
inductive Transaction (α : Type) where
  | done (result : α)
  | read (address : UInt16) (next : UInt8 → Transaction α)
  | write (address : UInt16) (value : UInt8) (next : Transaction α)

namespace Transaction

variable {α β : Type}

/-- One transaction, then another that depends on its result. -/
def bind : Transaction α → (α → Transaction β) → Transaction β
  | done result, f => f result
  | read address next, f => read address fun value => (next value).bind f
  | write address value next, f => write address value (next.bind f)

instance : Monad Transaction where
  pure := done
  bind := bind

/-- Reads one byte. -/
def fetch (address : UInt16) : Transaction UInt8 :=
  read address done

/-- Writes one byte. -/
def put (address : UInt16) (value : UInt8) : Transaction Unit :=
  write address value (done ())

/-- Carries a transaction out on a memory. -/
def run {M : Type} [Memory M] : Transaction α → M → α × M
  | done result, memory => (result, memory)
  | read address next, memory =>
    let (value, memory) := Memory.read memory address
    (next value).run memory
  | write address value next, memory => next.run (Memory.write memory address value)

end Transaction

end AppleOne.Cpu
