/-!
# JSON documents

The values of RFC 8259. Numbers written as integers that fit in 64 bits, signed or
unsigned, are integers; all others are doubles. An object keeps its members in the
order in which they were written, repetitions included, until `canonical` sorts them.

A text can be well formed and still hold something without a value: a number beyond
the doubles, half of a surrogate pair, or brackets nested too deep. Such a place
reads as a `defect`, which matters only to those who look at it.

## Main definitions

* `Json`: the values.
* `Json.sound`: no defect anywhere.
* `Json.canonical`: members sorted by key, the last of equal keys remaining.
-/

namespace AppleOne

/-- Why a well-formed text has no value at some place. -/
inductive JsonDefect where
  /-- A number beyond the largest double. -/
  | numberOutOfRange
  /-- Half of a surrogate pair in a string. -/
  | loneSurrogate
  /-- Brackets nested too deep. -/
  | tooDeep
  deriving DecidableEq, Repr

/-- A JSON value. -/
inductive Json where
  | null
  | bool (value : Bool)
  | int (value : Int)
  | float (value : Float)
  | string (value : String)
  | array (items : List Json)
  | object (members : List (String × Json))
  | defect (reason : JsonDefect)
  deriving Repr, Inhabited

namespace Json

mutual

/-- Whether a value is free of defects. -/
def sound : Json → Bool
  | .array items => soundItems items
  | .object members => soundMembers members
  | .defect _ => false
  | _ => true

/-- Whether all values of a list are free of defects. -/
def soundItems : List Json → Bool
  | [] => true
  | item :: rest => item.sound && soundItems rest

/-- Whether the values of all members are free of defects. -/
def soundMembers : List (String × Json) → Bool
  | [] => true
  | (_, value) :: rest => value.sound && soundMembers rest

end

/-- Inserts a member into members sorted by key, unless its key is already there. -/
def insertMember (key : String) (value : Json) :
    List (String × Json) → List (String × Json)
  | [] => [(key, value)]
  | (other, held) :: rest =>
    if key < other then (key, value) :: (other, held) :: rest
    else if key = other then (other, held) :: rest
    else (other, held) :: insertMember key value rest

mutual

/-- The same value with the members of every object sorted by key, the last one
standing for all that have the same key. -/
def canonical : Json → Json
  | .array items => .array (canonicalItems [] items)
  | .object members => .object (canonicalMembers members)
  | value => value

/-- The canonical forms of a list of values, after those in `done`, which are held
in reverse. -/
def canonicalItems (done : List Json) : List Json → List Json
  | [] => done.reverse
  | item :: rest => canonicalItems (item.canonical :: done) rest

/-- The canonical form of a list of members. -/
def canonicalMembers : List (String × Json) → List (String × Json)
  | [] => []
  | (key, value) :: rest => insertMember key value.canonical (canonicalMembers rest)

end

/-- The value of a member, the last one if the key is repeated. -/
def get? (value : Json) (key : String) : Option Json :=
  match value with
  | .object members => (members.findRev? (·.1 == key)).map (·.2)
  | _ => none

/-- An unsigned number. -/
def nat (n : Nat) : Json := .int n

/-- A byte. -/
def byte (b : UInt8) : Json := .nat b.toNat

/-- A word. -/
def word (w : UInt16) : Json := .nat w.toNat

/-- A number of 64 bits. -/
def word64 (n : UInt64) : Json := .nat n.toNat

/-- A value that may be absent. -/
def ofOption {α : Type} (encode : α → Json) : Option α → Json
  | some value => encode value
  | none => .null

/-- A list of values. -/
def ofList {α : Type} (encode : α → Json) (values : List α) : Json :=
  .array (values.map encode)

/-- An object that holds a type and perhaps some content, under the given keys. -/
def tagged (tag contents : String) (type : String) (content : Option Json) : Json :=
  .object ((tag, .string type) :: (content.map fun value => (contents, value)).toList)

/-- A message: an object that holds a type and perhaps a payload. -/
def message (type : String) (content : Option Json) : Json :=
  tagged "type" "payload" type content

end Json

end AppleOne
