import AppleOne.Bank
import AppleOne.Memory
import AppleOne.Pia.Basic

/-!
# The bus

The bus maps ranges of addresses to components: RAM and ROM banks, and the peripheral
adapter. Where ranges overlap the one mapped first wins. Addresses that no range holds
read as zero and ignore writes. The bus remembers its last read and its last write,
and keeps the log in which all its components report.

## Main definitions

* `Component`: what can be mapped.
* `Bus`, and `Bus.map?`, which adds a mapping.
* `Bus.read`, `Bus.write`, `Bus.peek`, and `Bus.peekSpan` for a stretch of memory.
-/

namespace AppleOne

/-- What can be mapped into the address space. -/
inductive Component where
  | ram (bank : Bank)
  | rom (bank : Bank)
  | pia (adapter : Pia)
  deriving DecidableEq, Repr

/-- The report of a write to read-only memory. -/
def Bank.rejectWrite (bank : Bank) (offset : UInt16) (value : Nat) : Note :=
  Fault.readOnlyViolation.note bank.source ("write of 0x" ++ Text.hexNat 2 value ++
    " to offset 0x" ++ Text.hexWord offset ++ " of '" ++ bank.id ++ "' ignored")

namespace Component

/-- Reads at an offset. -/
def read (component : Component) (offset : UInt16) : UInt8 × Component × Option Note :=
  match component with
  | ram bank => let (value, note) := bank.read offset; (value, ram bank, note)
  | rom bank => let (value, note) := bank.read offset; (value, rom bank, note)
  | pia adapter => let (value, adapter) := adapter.read offset; (value, pia adapter, none)

/-- Writes at an offset. -/
def write (component : Component) (offset : UInt16) (value : UInt8) : Component × Option Note :=
  match component with
  | ram bank => let (bank, note) := bank.store offset value; (ram bank, note)
  | rom bank => (rom bank, some (bank.rejectWrite offset value.toNat))
  | pia adapter => (pia (adapter.write offset value), none)

/-- The value a read would return. -/
def peek (component : Component) (offset : UInt16) : UInt8 :=
  match component with
  | ram bank | rom bank => bank.peek offset
  | pia adapter => adapter.peek offset

/-- Writes a number at an offset: RAM takes its low eight bits and reports a number
that is wider, ROM takes nothing and reports the whole number, and the adapter has no
such access. -/
def writeNumber (component : Component) (offset : UInt16) (value : UInt32) :
    Component × List Note :=
  match component with
  | ram bank =>
    let (byte, masked) := bank.narrow value
    let (bank, outside) := bank.store offset byte
    (ram bank, masked.toList ++ outside.toList)
  | rom bank => (rom bank, [bank.rejectWrite offset value.toNat])
  | pia adapter => (pia adapter, [])

/-- The reset line, which banks ignore. -/
def reset (component : Component) : Component × Option Note :=
  match component with
  | pia adapter => let (adapter, note) := adapter.reset; (pia adapter, some note)
  | bank => (bank, none)

/-- The bank of a component that has one. -/
def bank? : Component → Option Bank
  | ram bank | rom bank => some bank
  | pia _ => none

/-- Changes the bank of a component that has one. -/
def mapBank (f : Bank → Bank) : Component → Component
  | ram bank => ram (f bank)
  | rom bank => rom (f bank)
  | pia adapter => pia adapter

end Component

/-- A range of addresses, given by its first and last, and the component in it. -/
structure Mapping where
  start : UInt16
  last : UInt16
  name : String
  component : Component
  deriving DecidableEq, Repr

namespace Mapping

/-- Whether an address lies in the range. -/
def contains (mapping : Mapping) (address : UInt16) : Bool :=
  mapping.start ≤ address && address ≤ mapping.last

/-- Whether a range has addresses in common with the mapping. -/
def overlaps (mapping : Mapping) (start last : UInt16) : Bool :=
  start ≤ mapping.last && mapping.start ≤ last

end Mapping

/-- An address with the byte that was read or written there. -/
structure Transfer where
  address : UInt16
  value : UInt8
  deriving DecidableEq, Repr

/-- A range that ends before it starts. -/
structure InvalidRange where
  start : UInt16
  last : UInt16
  deriving DecidableEq, Repr

/-- The message about an invalid range. -/
def InvalidRange.message (range : InvalidRange) : String :=
  "Invalid bus range 0x" ++ Text.hexWord range.start ++ "-0x" ++ Text.hexWord range.last ++
    ": end precedes start"

/-- The address space. -/
structure Bus where
  /-- The mappings, earliest first. -/
  mappings : List Mapping := []
  lastRead : Option Transfer := none
  lastWrite : Option Transfer := none
  log : Log

/-- What a debugger shows of a mapping. -/
structure Mapping.View where
  name : String
  start : UInt16
  last : UInt16
  deriving DecidableEq, Repr

/-- What a debugger shows of the bus. -/
structure Bus.View where
  lastRead : Option Transfer
  lastWrite : Option Transfer
  mappings : List Mapping.View
  deriving DecidableEq, Repr

namespace Bus

/-- The name under which the bus reports. -/
def logSource : String := "bus"

/-- An empty address space. -/
def empty (logCapacity : Nat) : Bus where
  log := Log.empty logCapacity

/-- Keeps a message in the log. -/
def report (bus : Bus) (note : Note) : Bus :=
  { bus with log := bus.log.add note }

/-- Keeps the message of an operation that may have one. -/
def reportAny (bus : Bus) (note : Option Note) : Bus :=
  match note with
  | some note => bus.report note
  | none => bus

/-- Keeps several messages in the log. -/
def reportAll (bus : Bus) (notes : List Note) : Bus :=
  { bus with log := bus.log.addAll notes }

/-- The report of a range that an earlier one covers in part. -/
def shadowing (name : String) (start last : UInt16) (other : Mapping) : Note :=
  ⟨.info, logSource, "'" ++ name ++ "' at 0x" ++ Text.hexWord start ++ "-0x" ++
    Text.hexWord last ++ " is shadowed by '" ++ other.name ++ "' where they overlap"⟩

/-- Adds a mapping behind those that are there. -/
def map? (bus : Bus) (start last : UInt16) (name : String) (component : Component) :
    Except InvalidRange Bus :=
  if last < start then .error ⟨start, last⟩
  else
    let shadow := (bus.mappings.find? (·.overlaps start last)).map (shadowing name start last)
    let bus := bus.reportAny shadow
    .ok { bus with mappings := bus.mappings ++ [⟨start, last, name, component⟩] }

/-- The mapping that serves an address. -/
def serving? (bus : Bus) (address : UInt16) : Option Mapping :=
  bus.mappings.find? (·.contains address)

/-- Lets the component of the first mapping that qualifies do something that may
change it, and gives back what it answers. The action is told where the range starts. -/
def onFirst {α : Type} (qualifies : Mapping → Bool) (act : UInt16 → Component → α × Component) :
    List Mapping → Option α × List Mapping
  | [] => (none, [])
  | mapping :: rest =>
    if qualifies mapping then
      let ⟨start, last, name, component⟩ := mapping
      let (answer, component) := act start component
      (some answer, ⟨start, last, name, component⟩ :: rest)
    else
      let (answer, rest) := onFirst qualifies act rest
      (answer, mapping :: rest)

/-- Reads a byte. -/
def read (bus : Bus) (address : UInt16) : UInt8 × Bus :=
  let ⟨mappings, _, lastWrite, log⟩ := bus
  let (answer, mappings) := onFirst (·.contains address) (fun start component =>
    let (value, component, note) := component.read (address - start)
    ((value, note), component)) mappings
  let (value, note) := answer.getD (0, none)
  (value, Bus.reportAny ⟨mappings, some ⟨address, value⟩, lastWrite, log⟩ note)

/-- Writes a byte. -/
def write (bus : Bus) (address : UInt16) (value : UInt8) : Bus :=
  let ⟨mappings, lastRead, _, log⟩ := bus
  let (note, mappings) := onFirst (·.contains address) (fun start component =>
    let (component, note) := component.write (address - start) value
    (note, component)) mappings
  Bus.reportAny ⟨mappings, lastRead, some ⟨address, value⟩, log⟩ (note.getD none)

/-- The byte a read would return. -/
def peek (bus : Bus) (address : UInt16) : UInt8 :=
  match bus.serving? address with
  | some mapping => mapping.component.peek (address - mapping.start)
  | none => 0

instance : Memory Bus where
  read := read
  write := write
  peek := peek
  report := report

/-- The longest stretch of memory that can be looked at in one go. -/
def maxSpan : Nat := 65536

/-- An address that lies further on by some offset. Both are signed numbers of 64 bits, and
the largest of them stands for all addresses that would lie beyond it. -/
def further (address offset : Int64) : Int64 := .ofIntClamp (address.toInt + offset.toInt)

/-- The byte at any address of 64 bits, zero outside the address space. -/
def peekAt (bus : Bus) (address : Int64) : UInt8 :=
  if 0 ≤ address ∧ address ≤ 0xFFFF then bus.peek address.toUInt64.toUInt16 else 0

/-- The bytes from an address of 64 bits on. -/
def peekSpan (bus : Bus) (start : Int) (length : Nat) : List UInt8 :=
  (List.range (min length maxSpan)).map fun (offset : Nat) =>
    bus.peekAt (further start.toInt64 offset.toInt64)

/-- Resets all components in order, collecting their messages. -/
def resetMappings : List Mapping → List Mapping × List Note
  | [] => ([], [])
  | mapping :: rest =>
    let (component, note) := mapping.component.reset
    let (rest, notes) := resetMappings rest
    ({ mapping with component } :: rest, note.toList ++ notes)

/-- The reset line of all components. -/
def reset (bus : Bus) : Bus :=
  let (mappings, notes) := resetMappings bus.mappings
  { bus with mappings, lastRead := none, lastWrite := none, log := bus.log.addAll notes }

/-- The banks in the order of their mappings. -/
def banks (bus : Bus) : List Bank :=
  bus.mappings.filterMap (·.component.bank?)

/-- The first bank with an id. -/
def bank? (bus : Bus) (id : String) : Option Bank :=
  bus.banks.find? (·.id == id)

/-- Whether a mapping holds the bank with an id. -/
def holdsBank (id : String) (mapping : Mapping) : Bool :=
  mapping.component.bank?.any (·.id == id)

/-- Lets the first bank with an id do something that may change it and be reported.
There is no answer if there is no such bank. -/
def onBank {α : Type} (bus : Bus) (id : String) (act : Bank → α × Bank × List Note) :
    Option α × Bus :=
  let (answer, mappings) := onFirst (holdsBank id) (fun _ component =>
    match component with
    | .ram bank =>
      let (answer, bank, notes) := act bank
      (some (answer, notes), .ram bank)
    | .rom bank =>
      let (answer, bank, notes) := act bank
      (some (answer, notes), .rom bank)
    | .pia adapter => (none, .pia adapter)) bus.mappings
  match answer.join with
  | some (answer, notes) => (some answer, { bus with mappings }.reportAll notes)
  | none => (none, { bus with mappings })

/-- Whether a mapping holds a peripheral adapter. -/
def holdsPia (mapping : Mapping) : Bool :=
  match mapping.component with
  | .pia _ => true
  | _ => false

/-- Lets the first peripheral adapter do something that may change it. -/
def onPia {α : Type} (bus : Bus) (act : Pia → α × Pia) : Option α × Bus :=
  let (answer, mappings) := onFirst holdsPia (fun _ component =>
    match component with
    | .pia adapter =>
      let (answer, adapter) := act adapter
      (some answer, .pia adapter)
    | other => (none, other)) bus.mappings
  (answer.join, { bus with mappings })

/-- The first peripheral adapter. -/
def pia? (bus : Bus) : Option Pia :=
  bus.mappings.findSome? fun mapping =>
    match mapping.component with
    | .pia adapter => some adapter
    | _ => none

/-- The ranges and names of all mappings. -/
def mappingViews (bus : Bus) : List Mapping.View :=
  bus.mappings.map fun mapping => ⟨mapping.name, mapping.start, mapping.last⟩

/-- The present view of the bus. -/
def view (bus : Bus) : Bus.View :=
  ⟨bus.lastRead, bus.lastWrite, bus.mappingViews⟩

end Bus

end AppleOne
