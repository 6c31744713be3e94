import AppleOne.Json.Printer

/-!
# Decoding values

A decoder turns a value into something of another type or says why it cannot. Numbers
must be integers of the right range: no decoder accepts a double, a string or null in
place of an integer.

A record is written as an object, whose unknown members are ignored, or as an array of
its fields in order. A `RecordDecoder` lists the fields; one with a default may be left
out, in an array only at the end.

## Main definitions

* `Mismatch`: why a value does not fit.
* `Decoder`, with one for every kind of scalar and `Decoder.list`.
* `RecordDecoder`, and `RecordDecoder.decode`.
-/

namespace AppleOne.Json

/-- Why a value does not fit. -/
inductive Mismatch where
  /-- A value of the wrong kind; both kinds are named. -/
  | wrongKind (found expected : String)
  /-- An integer out of range. -/
  | outOfRange (found : Int) (expected : String)
  | missingField (name : String)
  | repeatedField (name : String)
  /-- An array with the wrong number of items. -/
  | wrongLength (found : Nat) (expected : String)
  /-- A name that is not among those known. -/
  | unknownName (name : String)
  deriving DecidableEq, Repr

namespace Mismatch

/-- A description for the reader of a log. -/
def message : Mismatch → String
  | wrongKind found expected => "invalid type: " ++ found ++ ", expected " ++ expected
  | outOfRange found expected =>
    "invalid value: integer " ++ toString found ++ ", expected " ++ expected
  | missingField name => "missing field " ++ name
  | repeatedField name => "duplicate field " ++ name
  | wrongLength found expected =>
    "invalid length " ++ toString found ++ ", expected " ++ expected
  | unknownName name => "unknown name " ++ quote name

end Mismatch

/-- Turns a value into something of another type. -/
abbrev Decoder (α : Type) := Json → Except Mismatch α

/-- A short description of a value: scalars as they are, containers by their kind. -/
def describe : Json → String
  | .null => "null"
  | .bool value => "boolean " ++ if value then "true" else "false"
  | .int value => "integer " ++ toString value
  | .float value => "floating point " ++ Decimal.floatText value
  | .string value => "string " ++ quote value
  | .array _ => "sequence"
  | .object _ => "map"
  | .defect _ => "defect"

namespace Decoder

variable {α β : Type}

/-- Refuses a value for its kind. -/
def refuse (value : Json) (expected : String) : Except Mismatch α :=
  .error (.wrongKind value.describe expected)

/-- An integer between two bounds. -/
def bounded (low high : Int) (expected : String) : Decoder Int
  | .int value =>
    if low ≤ value ∧ value ≤ high then .ok value else .error (.outOfRange value expected)
  | value => refuse value expected

/-- An unsigned integer below a limit. -/
def unsigned (limit : Nat) (expected : String) : Decoder Nat := fun value =>
  (bounded 0 (limit - 1) expected value).map Int.toNat

/-- A byte. -/
def byte : Decoder UInt8 := fun value => (unsigned UInt8.size "a byte" value).map Nat.toUInt8

/-- A word of sixteen bits. -/
def word : Decoder UInt16 := fun value => (unsigned UInt16.size "a word" value).map Nat.toUInt16

/-- An unsigned number of 32 bits. -/
def word32 : Decoder UInt32 := fun value =>
  (unsigned UInt32.size "a number of 32 bits" value).map Nat.toUInt32

/-- An unsigned number of 64 bits. -/
def word64 : Decoder UInt64 := fun value =>
  (unsigned UInt64.size "a number of 64 bits" value).map Nat.toUInt64

/-- A position or a count. -/
def size : Decoder Nat := unsigned UInt64.size "a size"

/-- A signed number of 64 bits. -/
def signed64 : Decoder Int :=
  bounded (-0x8000000000000000) 0x7FFFFFFFFFFFFFFF "a signed number of 64 bits"

/-- A truth value. -/
def bool : Decoder Bool
  | .bool value => .ok value
  | value => refuse value "a boolean"

/-- A string. -/
def string : Decoder String
  | .string value => .ok value
  | value => refuse value "a string"

/-- A list of any length. -/
def list (item : Decoder α) : Decoder (List α)
  | .array items => items.mapM item
  | value => refuse value "a sequence"

/-- Null, or a value. -/
def option (inner : Decoder α) : Decoder (Option α)
  | .null => .ok none
  | value => (inner value).map some

end Decoder

/-- A field of a record, by name, with a check that its value fits. -/
structure FieldCheck where
  name : String
  check : Json → Option Mismatch

/-- Finds the value of a field by its name. -/
abbrev FieldLookup := String → Option Json

/-- The fields of a record in order, and how to put the record together from their
values. `build` gives the name of the first field that has no value but needs one. -/
structure RecordDecoder (α : Type) where
  fields : List FieldCheck
  build : FieldLookup → Except (String ⊕ Mismatch) α

namespace RecordDecoder

variable {α β : Type}

/-- The mismatch of a value, if it does not fit. -/
def mismatch? (decoder : Decoder α) (value : Json) : Option Mismatch :=
  match decoder value with
  | .ok _ => none
  | .error reason => some reason

/-- A field that must be there. -/
def required (name : String) (decoder : Decoder α) : RecordDecoder α where
  fields := [⟨name, mismatch? decoder⟩]
  build lookup :=
    match lookup name with
    | some value => (decoder value).mapError .inr
    | none => .error (.inl name)

/-- A field that may be left out. -/
def withDefault (name : String) (decoder : Decoder α) (default : α) : RecordDecoder α where
  fields := [⟨name, mismatch? decoder⟩]
  build lookup :=
    match lookup name with
    | some value => (decoder value).mapError .inr
    | none => .ok default

instance : Applicative RecordDecoder where
  pure value := ⟨[], fun _ => .ok value⟩
  seq first second :=
    let second := second ()
    ⟨first.fields ++ second.fields, fun lookup => do
      let f ← first.build lookup
      let value ← second.build lookup
      return f value⟩

/-- Checks the members of an object in the order of writing. -/
def checkMembers (fields : List FieldCheck) (seen : List String) :
    List (String × Json) → Except Mismatch Unit
  | [] => .ok ()
  | (key, value) :: rest =>
    match fields.find? (·.name == key) with
    | none => checkMembers fields seen rest
    | some field =>
      if seen.contains key then .error (.repeatedField key)
      else
        match field.check value with
        | some reason => .error reason
        | none => checkMembers fields (key :: seen) rest

/-- Checks the items of an array against the fields in order. -/
def checkItems : List (FieldCheck × Json) → Except Mismatch Unit
  | [] => .ok ()
  | (field, value) :: rest =>
    match field.check value with
    | some reason => .error reason
    | none => checkItems rest

/-- How the record of a given name is called in messages about its length. -/
def lengthText (name : String) (fields : List FieldCheck) : String :=
  name ++ " with " ++ toString fields.length ++ " elements"

/-- Decodes a record from an object. -/
def decodeMembers (record : RecordDecoder α) (members : List (String × Json)) :
    Except Mismatch α := do
  checkMembers record.fields [] members
  (record.build fun key => members.lookup key).mapError fun
    | .inl name => .missingField name
    | .inr reason => reason

/-- Decodes a record from an array. -/
def decodeItems (name : String) (record : RecordDecoder α) (items : List Json) :
    Except Mismatch α := do
  checkItems (record.fields.zip items)
  let members := (record.fields.map (·.name)).zip items
  let value ← (record.build fun key => members.lookup key).mapError fun
    | .inl field =>
      .wrongLength (record.fields.findIdx (·.name == field)) (lengthText name record.fields)
    | .inr reason => reason
  if record.fields.length < items.length then
    .error (.wrongLength items.length "fewer elements in array")
  else .ok value

/-- Decodes a record. -/
def decode (name : String) (record : RecordDecoder α) : Decoder α
  | .object members => record.decodeMembers members
  | .array items => decodeItems name record items
  | value => Decoder.refuse value name

end RecordDecoder

end AppleOne.Json
