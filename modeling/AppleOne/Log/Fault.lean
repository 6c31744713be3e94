import AppleOne.Log.Basic

/-!
# Faults

A fault is an event that the hardware would pass over in silence and that the log
should mention: it never stops the machine. Each kind of fault has a level of its
own and a name with which its message begins.
-/

namespace AppleOne

/-- The kinds of recoverable fault. -/
inductive Fault where
  /-- An access beyond the end of a bank. -/
  | outOfBounds
  /-- A write to read-only memory. -/
  | readOnlyViolation
  /-- A value wider than a byte, cut to its low eight bits. -/
  | maskedValue
  /-- A flash payload that is too short or holds entries that are no numbers. -/
  | invalidFlashData
  /-- An undocumented opcode, executed as a no-operation. -/
  | illegalOpcode
  deriving DecidableEq, Repr

namespace Fault

/-- The name that opens a fault's message. -/
def name : Fault → String
  | outOfBounds => "OutOfBounds"
  | readOnlyViolation => "ReadOnlyViolation"
  | maskedValue => "MaskedValue"
  | invalidFlashData => "InvalidFlashData"
  | illegalOpcode => "IllegalOpcode"

/-- The level a fault is reported at. -/
def level : Fault → Level
  | maskedValue => .info
  | invalidFlashData => .error
  | _ => .warn

/-- All faults. -/
def all : List Fault :=
  [outOfBounds, readOnlyViolation, maskedValue, invalidFlashData, illegalOpcode]

/-- The fault of a given name. -/
def ofName? (name : String) : Option Fault :=
  all.find? (·.name == name)

/-- The message of a fault reported by `source`. -/
def note (fault : Fault) (source detail : String) : Note :=
  ⟨fault.level, source, fault.name ++ ": " ++ detail⟩

end Fault

end AppleOne
