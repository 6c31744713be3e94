/-!
# Pacers

A pacer decides how much a slice may run. A free-running one allows a fixed number of
instructions. A cycle-accurate one keeps emulated time close to real time: it counts
the cycles run since a reference time, waits while they are ahead of the clock,
and sets a new reference when they have fallen too far behind.

All times are in microseconds since some fixed moment, and a pacer that waits gives
back the later time.

## Main definitions

* `Timekeeper`, with `Timekeeper.cyclesPerSlice` and `Timekeeper.emulatedTime`.
* `Pacer`, and `Pacer.allowance`: what the next slice may run.
-/

namespace AppleOne

/-- The two ways of pacing. -/
inductive PacingMode where
  | freeRun
  | cycleAccurate
  deriving DecidableEq, Repr

namespace PacingMode

/-- The name of a mode in documents. -/
def name : PacingMode → String
  | freeRun => "free_run"
  | cycleAccurate => "cycle_accurate"

/-- The name of a mode in the log. -/
def title : PacingMode → String
  | freeRun => "FreeRun"
  | cycleAccurate => "CycleAccurate"

end PacingMode

/-- What a slice may run: it ends when one of the two is used up. -/
structure Allowance where
  instructions : Nat
  cycles : Nat
  deriving DecidableEq, Repr

/-- The largest number of 64 bits, at which sums and products of pacing stop. -/
def maxCount : Nat := UInt64.size - 1

/-- A number cut down to 64 bits by stopping at the largest. -/
def saturate (n : Nat) : Nat := min n maxCount

/-- The state of cycle-accurate pacing. -/
structure Timekeeper where
  hz : Nat
  sliceLength : Nat
  maxLag : Nat
  /-- The time at which no cycle had been run. -/
  reference : Nat
  /-- Cycles run since then. -/
  emulated : Nat
  /-- How often catching up was given up, modulo 64 bits. -/
  resyncs : UInt64
  deriving DecidableEq, Repr

namespace Timekeeper

/-- A timekeeper that starts now. -/
def start (hz : UInt64) (sliceLength maxLag now : Nat) : Timekeeper :=
  ⟨max hz.toNat 1, sliceLength, maxLag, now, 0, 0⟩

/-- The cycles of one slice, at least one. The length of a slice counts modulo 64 bits. -/
def cyclesPerSlice (keeper : Timekeeper) : Nat :=
  max (saturate (keeper.sliceLength % UInt64.size * keeper.hz) / 1000000) 1

/-- The time that the cycles run so far would have taken. -/
def emulatedTime (keeper : Timekeeper) : Nat :=
  saturate (keeper.emulated * 1000000) / keeper.hz

/-- Makes this moment the reference. -/
def rebase (keeper : Timekeeper) (now : Nat) : Timekeeper :=
  { keeper with reference := now, emulated := 0 }

/-- Makes this moment the reference because the cycles run lag too far behind. -/
def resync (keeper : Timekeeper) (now : Nat) : Timekeeper :=
  { keeper.rebase now with resyncs := keeper.resyncs + 1 }

/-- Brings emulated time and real time together, by waiting or by giving up. Gives back
the time at which that is done. -/
def synchronize (keeper : Timekeeper) (now : Nat) : Timekeeper × Nat :=
  let elapsed := now - keeper.reference
  if elapsed < keeper.emulatedTime then (keeper, now + (keeper.emulatedTime - elapsed))
  else if keeper.maxLag < elapsed - keeper.emulatedTime then (keeper.resync now, now)
  else (keeper, now)

/-- Counts cycles that were run. -/
def count (keeper : Timekeeper) (cycles : Nat) : Timekeeper :=
  { keeper with emulated := saturate (keeper.emulated + cycles) }

end Timekeeper

/-- A way of pacing with its state. -/
inductive Pacer where
  | freeRun (batch : Nat)
  | cycleAccurate (keeper : Timekeeper)
  deriving DecidableEq, Repr

namespace Pacer

/-- Free running in batches of at least one instruction. -/
def unpaced (batch : UInt32) : Pacer := .freeRun (max batch.toNat 1)

/-- The mode of a pacer. -/
def mode : Pacer → PacingMode
  | freeRun _ => .freeRun
  | cycleAccurate _ => .cycleAccurate

/-- The most instructions that a paced slice may run. -/
def maxInstructions : Nat := UInt32.size - 1

/-- What the next slice may run, and the time at which it may start. -/
def allowance (now : Nat) : Pacer → Allowance × Pacer × Nat
  | freeRun batch => (⟨batch, maxCount⟩, freeRun batch, now)
  | cycleAccurate keeper =>
    let (keeper, now) := keeper.synchronize now
    (⟨maxInstructions, keeper.cyclesPerSlice⟩, cycleAccurate keeper, now)

/-- Counts the cycles of a slice. -/
def count (cycles : Nat) : Pacer → Pacer
  | freeRun batch => freeRun batch
  | cycleAccurate keeper => cycleAccurate (keeper.count cycles)

/-- Makes this moment the reference. -/
def rebase (now : Nat) : Pacer → Pacer
  | freeRun batch => freeRun batch
  | cycleAccurate keeper => cycleAccurate (keeper.rebase now)

end Pacer

end AppleOne
