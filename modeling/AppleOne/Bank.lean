import AppleOne.Json.Basic
import AppleOne.Log.Fault
import AppleOne.Text.Hex

/-!
# Banks

A bank is a block of bytes of fixed size, addressed by offset. Nothing outside the
block exists: such a read gives zero, such a write is dropped, and both are reported.

A bank can be filled in bulk. An image replaces the whole contents. A flash payload
begins with an absolute address, low byte first, and goes on with the bytes to be
placed there; the bank knows the address at which it is mapped.

## Main definitions

* `Bank`, with `Bank.read`, `Bank.peek` and `Bank.store`.
* `Bank.fillFrom`: replaces the contents.
* `Bank.flash`, `Bank.flashJson`: place bytes at an absolute address.
-/

namespace AppleOne

/-- A block of bytes. -/
structure Bank where
  id : String
  /-- The address at which the first byte is mapped. -/
  origin : UInt16
  data : Array UInt8
  /-- The name under which the bank reports. -/
  source : String
  deriving DecidableEq, Repr

/-- Why a flash payload was turned down. -/
inductive FlashRefusal where
  | tooShort (length : Nat)
  | unknownBank (id : String)
  deriving DecidableEq, Repr

namespace FlashRefusal

/-- The message of a refused payload. -/
def message : FlashRefusal → String
  | tooShort length =>
    "Flash payload of " ++ toString length ++
      " entries is too short (need address low, address high and at least one byte)"
  | unknownBank id => "No bank with id '" ++ id ++ "' is mapped"

end FlashRefusal

namespace Bank

/-- A bank of zeros. -/
def zeros (id : String) (origin : UInt16) (size : Nat) (source : String) : Bank :=
  ⟨id, origin, Array.replicate size 0, source⟩

/-- The number of bytes. -/
def size (bank : Bank) : Nat := bank.data.size

/-- The report of an access at an offset beyond the end. -/
def outside (bank : Bank) (verb : String) (offset : UInt16) : Note :=
  Fault.outOfBounds.note bank.source (verb ++ " at offset 0x" ++ Text.hexWord offset ++
    " outside bank of " ++ toString bank.size ++ " bytes")

/-- The byte at an offset, zero beyond the end. -/
def peek (bank : Bank) (offset : UInt16) : UInt8 :=
  bank.data.getD offset.toNat 0

/-- Reads a byte; an offset beyond the end is reported. -/
def read (bank : Bank) (offset : UInt16) : UInt8 × Option Note :=
  if offset.toNat < bank.size then (bank.peek offset, none)
  else (0, some (bank.outside "read" offset))

/-- Writes a byte; an offset beyond the end is reported and nothing is written. -/
def store (bank : Bank) (offset : UInt16) (value : UInt8) : Bank × Option Note :=
  if offset.toNat < bank.size then
    ({ bank with data := bank.data.setIfInBounds offset.toNat value }, none)
  else (bank, some (bank.outside "write" offset))

/-- Cuts a number to a byte, which is reported if it changes the number. -/
def narrow (bank : Bank) (value : UInt32) : UInt8 × Option Note :=
  if value ≤ 0xFF then (value.toUInt8, none)
  else (value.toUInt8, some (Fault.maskedValue.note bank.source
    ("0x" ++ Text.hexNat 1 value.toNat ++ " stored as 0x" ++ Text.hexByte value.toUInt8)))

/-- Bytes cut or filled up with zeros to a given number. -/
def fit (size : Nat) (bytes : List UInt8) : List UInt8 :=
  let kept := bytes.take size
  kept ++ List.replicate (size - kept.length) 0

/-- Replaces the contents. An image of another size is cut or filled up with zeros,
and reported. -/
def fillFrom (bank : Bank) (image : List UInt8) : Bank × Option Note :=
  let loaded := { bank with data := (fit bank.size image).toArray }
  if image.length = bank.size then (loaded, none)
  else (loaded, some ⟨.warn, bank.source, "image for bank '" ++ bank.id ++ "' has " ++
    toString image.length ++ " bytes, bank holds " ++ toString bank.size⟩)

/-- Sets all bytes to zero. -/
def clear (bank : Bank) : Bank :=
  { bank with data := Array.replicate bank.size 0 }

/-- Writes bytes at consecutive offsets from `base`, which may lie before the bank;
bytes that do not meet it are dropped. Gives back `stored` increased by the number of
bytes written. -/
def overlay (data : Array UInt8) (base : Int) (stored : Nat) : List UInt8 → Nat × Array UInt8
  | [] => (stored, data)
  | byte :: rest =>
    if 0 ≤ base ∧ base < data.size then
      overlay (data.setIfInBounds base.toNat byte) (base + 1) (stored + 1) rest
    else overlay data (base + 1) stored rest

/-- Places bytes at an absolute address and reports those that fall outside. -/
def overlayAt (bank : Bank) (address : UInt16) (bytes : List UInt8) : Nat × Bank × List Note :=
  let (stored, data) := overlay bank.data ((address.toNat : Int) - bank.origin.toNat) 0 bytes
  let dropped := bytes.length - stored
  let notes := if dropped = 0 then [] else
    [Fault.outOfBounds.note bank.source (toString dropped ++ " flashed bytes from 0x" ++
      Text.hexWord address ++ " fall outside bank '" ++ bank.id ++ "'")]
  (stored, { bank with data }, notes)

/-- The report of a payload without data. -/
def rejection (bank : Bank) (length : Nat) : Note :=
  Fault.invalidFlashData.note bank.source
    ("bank '" ++ bank.id ++ "': " ++ (FlashRefusal.tooShort length).message)

/-- Places the bytes of a payload at the address with which it begins. Gives back the
number of bytes stored. -/
def flash (bank : Bank) (payload : List UInt8) : Except FlashRefusal Nat × Bank × List Note :=
  match payload with
  | low :: high :: byte :: bytes =>
    let (stored, bank, notes) :=
      bank.overlayAt (high.toUInt16 <<< 8 ||| low.toUInt16) (byte :: bytes)
    (.ok stored, bank, notes)
  | _ => (.error (.tooShort payload.length), bank, [bank.rejection payload.length])

/-- The whole part of a number, as a signed number of 64 bits; nothing for a value that is no
number. An integer beyond the largest of them wraps around. -/
def wholePart? : Json → Option Int64
  | .int value => some value.toInt64
  | .float value => some value.toInt64
  | _ => none

/-- The low 32 bits of a number, of which only the whole part counts. -/
def lowBits? (entry : Json) : Option UInt32 :=
  (wholePart? entry).map (·.toUInt64.toUInt32)

/-- A payload entry as a byte, with its report if it was cut. Other values than
numbers count as zero. -/
def entryByte (bank : Bank) (entry : Json) : UInt8 × Option Note :=
  match lowBits? entry with
  | some value => bank.narrow value
  | none => (0, none)

/-- The report of payload entries that are no numbers. -/
def coercion (bank : Bank) (count : Nat) : List Note :=
  if count = 0 then [] else
    [⟨.warn, bank.source, Fault.invalidFlashData.name ++ ": " ++ toString count ++
      " non-numeric entries in flash payload for '" ++ bank.id ++ "' coerced to 0"⟩]

/-- Flashes a payload of arbitrary values, of which each stands for a byte. -/
def flashJson (bank : Bank) (payload : List Json) :
    Except FlashRefusal Nat × Bank × List Note :=
  if payload.length < 3 then
    (.error (.tooShort payload.length), bank, [bank.rejection payload.length])
  else
    let entries := payload.map bank.entryByte
    let coerced := payload.countP fun entry => (lowBits? entry).isNone
    let (stored, flashed, notes) := bank.flash (entries.map (·.1))
    (stored, flashed, entries.filterMap (·.2) ++ bank.coercion coerced ++ notes)

end Bank

end AppleOne
