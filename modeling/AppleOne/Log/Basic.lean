/-!
# The log

A log keeps the most recent messages of a machine's components. A message that
repeats the newest entry is folded into it, so a program that faults in a loop
leaves one entry with a large count. When the log is full the oldest entry makes
room for the new one.

## Main definitions

* `Note`: one message, with its level and the component it comes from.
* `Log.add`: takes a note in, by folding it or by appending a new entry.
* `Log.startsRun`: whether a note opens a new entry.
* `Log.drain`: hands out all entries and empties the log.
-/

namespace AppleOne

/-- How serious a message is. -/
inductive Level where
  | info
  | warn
  | error
  deriving DecidableEq, Repr

namespace Level

/-- The name under which a level is written. -/
def name : Level → String
  | info => "info"
  | warn => "warn"
  | error => "error"

end Level

/-- One message of a component. -/
structure Note where
  level : Level
  /-- The component that reports. -/
  source : String
  text : String
  deriving DecidableEq, Repr

/-- A message with the number of times it was reported in a row. -/
structure Log.Entry where
  note : Note
  count : Nat
  deriving DecidableEq, Repr

namespace Log.Entry

/-- Repetitions are counted up to this number and no further. -/
def maxCount : Nat := UInt32.size - 1

/-- The entry of a message reported for the first time. -/
def first (note : Note) : Log.Entry := ⟨note, 1⟩

/-- The same message once more. -/
def again (entry : Log.Entry) : Log.Entry :=
  { entry with count := min (entry.count + 1) maxCount }

end Log.Entry

/-- A bounded list of entries, oldest first. -/
structure Log where
  capacity : Nat
  entries : Array Log.Entry := #[]
  capacity_pos : 0 < capacity := by omega

namespace Log

/-- The capacity of a log that is not told otherwise. -/
def defaultCapacity : Nat := 256

/-- An empty log. A log always has room for one entry. -/
def empty (capacity : Nat) : Log where
  capacity := max capacity 1

/-- A note starts a run when it differs from the newest entry. -/
def startsRun (log : Log) (note : Note) : Bool :=
  match log.entries.back? with
  | some newest => newest.note != note
  | none => true

/-- Adds an entry for a new run, dropping the oldest entry of a full log. -/
def append (log : Log) (note : Note) : Log :=
  let kept := if log.entries.size = log.capacity then log.entries.eraseIdxIfInBounds 0
    else log.entries
  { log with entries := kept.push (.first note) }

/-- Takes a note in: a repetition of the newest entry is counted there, any other
note is appended. -/
def add (log : Log) (note : Note) : Log :=
  match log.entries.back? with
  | some newest =>
    if newest.note = note then { log with entries := log.entries.pop.push newest.again }
    else log.append note
  | none => log.append note

/-- Takes in a list of notes, in order. -/
def addAll (log : Log) (notes : List Note) : Log :=
  notes.foldl add log

/-- Hands out the entries, oldest first, and leaves the log empty. -/
def drain (log : Log) : List Log.Entry × Log :=
  (log.entries.toList, { log with entries := #[] })

end Log

end AppleOne
