import AppleOne.Bank
import AppleOne.Cpu.Registers
import AppleOne.Json.Decode
import AppleOne.Pia.Basic
import AppleOne.Screen

/-!
# Saved machines

A snapshot holds what is needed to go on with a machine later: the bytes of its banks,
the registers, the ports of the peripheral adapter and the screen. A save file is a
snapshot with a version number and the time at which it was made.

## Main definitions

* `Snapshot` and `SaveFile`.
* `LoadError`: why a document is no save file.
-/

namespace AppleOne

/-- The bytes of a bank. -/
structure Bank.Image where
  id : String
  data : List UInt8
  deriving DecidableEq, Repr

/-- The image of a bank. -/
def Bank.image (bank : Bank) : Bank.Image := ⟨bank.id, bank.data.toList⟩

/-- The state of a machine between two steps. -/
structure Snapshot where
  banks : List Bank.Image
  registers : Cpu.Registers
  pia : Pia.State
  /-- The screen, if it was saved. -/
  screen : Option Screen.State
  deriving DecidableEq, Repr

/-- A snapshot as it is stored. -/
structure SaveFile where
  version : UInt32
  /-- Seconds since the beginning of 1970. -/
  timestamp : UInt64
  state : Snapshot
  deriving DecidableEq, Repr

namespace SaveFile

/-- The version of files that are written and can be read. -/
def currentVersion : UInt32 := 1

/-- A file of the current version. -/
def stamp (state : Snapshot) (timestamp : UInt64) : SaveFile :=
  ⟨currentVersion, timestamp, state⟩

end SaveFile

/-- Why a document is no save file that can be loaded. -/
inductive LoadError where
  /-- The text is no JSON document. -/
  | unreadable
  | missingVersion
  | versionMismatch (found : Nat)
  | malformed (reason : Json.Mismatch)
  deriving DecidableEq, Repr

namespace LoadError

/-- The message of a load that failed. -/
def message : LoadError → String
  | unreadable => "Malformed save state: not a JSON document"
  | missingVersion => "Save state has no version field"
  | versionMismatch found =>
    "Save state version mismatch: expected " ++ toString SaveFile.currentVersion.toNat ++
      ", found " ++ toString found
  | malformed reason => "Malformed save state: " ++ reason.message

end LoadError

end AppleOne
