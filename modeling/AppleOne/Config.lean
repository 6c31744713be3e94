/-!
# Configuration

What a host can choose when it builds a machine. Everything has a default. Times are
given in milliseconds and used in microseconds.
-/

namespace AppleOne

/-- The settings of a machine. -/
structure Config where
  /-- The rate of the processor clock, for pacing. -/
  clockRate : UInt64 := 1000000
  cycleAccurate : Bool := false
  /-- How many instructions a slice runs when it is not paced. -/
  batch : UInt32 := 20000
  sliceMillis : UInt64 := 16
  lagMillis : UInt64 := 100
  ramSize : UInt32 := 0x1000
  basic : Bool := true
  /-- Whether rubout takes back a character on the screen. -/
  rubout : Bool := true
  pushMillis : UInt64 := 250
  pausedPushMillis : UInt64 := 100
  logCapacity : Nat := 256
  deriving DecidableEq, Repr

namespace Config

/-- RAM of this size or less stays clear of the peripheral adapter. -/
def maxRamSize : UInt32 := 0xD000

/-- A number of milliseconds, in microseconds. -/
def micros (milliseconds : UInt64) : Nat :=
  milliseconds.toNat * 1000

/-- The length of a paced slice in milliseconds, at least one. -/
def wholeSliceMillis (config : Config) : UInt64 :=
  max config.sliceMillis 1

/-- The length of a paced slice. -/
def sliceLength (config : Config) : Nat :=
  micros config.wholeSliceMillis

/-- How far a paced machine may lag behind before it gives up catching up. -/
def maxLag (config : Config) : Nat :=
  micros config.lagMillis

/-- The time between two debug snapshots, which depends on whether the machine runs. -/
def pushInterval (config : Config) (paused : Bool) : UInt64 :=
  if paused then config.pausedPushMillis else config.pushMillis

end Config

end AppleOne
