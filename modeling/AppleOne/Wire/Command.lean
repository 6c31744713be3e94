import AppleOne.Wire.State

/-!
# Commands and their documents

A host drives a machine with commands. A command is written as an object with a `type`
and, if it carries data, a `payload`, or as an array of the two. Other members of the
object are ignored, but the two may not be repeated.

## Main definitions

* `Command`.
* `Command.encode`, `Command.decode`, `Command.ofText`.
-/

namespace AppleOne

/-- What a host can ask of a machine. -/
inductive Command where
  | keyDown (key : String)
  | step
  | pauseEmulation
  | resumeEmulation
  | setBreakpoint (address : UInt16)
  | clearBreakpoint (address : UInt16)
  | clearAllBreakpoints
  | getBreakpoints
  | runToAddress (target : UInt16)
  /-- A stretch of memory, from an address that need not lie in the address space. -/
  | getMemoryRange (start : Int) (length : Nat)
  | saveState
  | loadState (document : Json)
  | setRubout (enabled : Bool)
  | setProfiling (enabled : Bool)
  | setCycleAccurate (enabled : Bool)
  | setDebuggerActive (active : Bool)
  | debugInfo
  | reset
  | getLogs
  | start
  deriving Repr

open Json

namespace Command

/-- The name of a command's type. -/
def type : Command → String
  | keyDown _ => "KEY_DOWN"
  | step => "STEP"
  | pauseEmulation => "PAUSE_EMULATION"
  | resumeEmulation => "RESUME_EMULATION"
  | setBreakpoint _ => "SET_BREAKPOINT"
  | clearBreakpoint _ => "CLEAR_BREAKPOINT"
  | clearAllBreakpoints => "CLEAR_ALL_BREAKPOINTS"
  | getBreakpoints => "GET_BREAKPOINTS"
  | runToAddress _ => "RUN_TO_ADDRESS"
  | getMemoryRange _ _ => "GET_MEMORY_RANGE"
  | saveState => "SAVE_STATE"
  | loadState _ => "LOAD_STATE"
  | setRubout _ => "SET_CRT_BS_SUPPORT_FLAG"
  | setProfiling _ => "SET_CPU_PROFILING"
  | setCycleAccurate _ => "SET_CYCLE_ACCURATE_TIMING"
  | setDebuggerActive _ => "SET_DEBUGGER_ACTIVE"
  | debugInfo => "DEBUG_INFO"
  | reset => "RESET"
  | getLogs => "GET_LOGS"
  | start => "START"

/-- The data that a command carries. -/
def payload : Command → Option Json
  | keyDown key => some (.string key)
  | setBreakpoint address | clearBreakpoint address | runToAddress address =>
    some (.word address)
  | getMemoryRange first length =>
    some (.object [("start", .int first), ("length", .nat length)])
  | loadState document => some document
  | setRubout flag | setProfiling flag | setCycleAccurate flag | setDebuggerActive flag =>
    some (.bool flag)
  | _ => none

/-- The document of a command. -/
def encode (command : Command) : Json := .message command.type command.payload

/-- The commands that carry no data. -/
def plain : List Command :=
  [step, pauseEmulation, resumeEmulation, clearAllBreakpoints, getBreakpoints, saveState,
    debugInfo, reset, getLogs, start]

/-- A stretch of memory as a record. -/
def rangeRecord : RecordDecoder Command :=
  getMemoryRange <$> RecordDecoder.required "start" Decoder.signed64
    <*> RecordDecoder.required "length" Decoder.size

/-- Reads a stretch of memory, which cannot be written as an array. -/
def decodeRange : Decoder Command
  | .object members => rangeRecord.decodeMembers members
  | value => Decoder.refuse value "memory range"

/-- Reads any document without defects. -/
def decodeDocument : Decoder Json := fun value =>
  if value.sound then .ok value.canonical else Decoder.refuse value "a document"

/-- How the payloads of commands with data are read. -/
def carriers : List (String × Decoder Command) :=
  [("KEY_DOWN", fun value => keyDown <$> Decoder.string value),
    ("SET_BREAKPOINT", fun value => setBreakpoint <$> Decoder.word value),
    ("CLEAR_BREAKPOINT", fun value => clearBreakpoint <$> Decoder.word value),
    ("RUN_TO_ADDRESS", fun value => runToAddress <$> Decoder.word value),
    ("GET_MEMORY_RANGE", decodeRange),
    ("LOAD_STATE", fun value => loadState <$> decodeDocument value),
    ("SET_CRT_BS_SUPPORT_FLAG", fun value => setRubout <$> Decoder.bool value),
    ("SET_CPU_PROFILING", fun value => setProfiling <$> Decoder.bool value),
    ("SET_CYCLE_ACCURATE_TIMING", fun value => setCycleAccurate <$> Decoder.bool value),
    ("SET_DEBUGGER_ACTIVE", fun value => setDebuggerActive <$> Decoder.bool value)]

/-- Reads the command of a type from its payload. A command without data may have
null for a payload. -/
def ofType (type : String) (payload : Option Json) : Except Mismatch Command :=
  match plain.find? (·.type == type) with
  | some command =>
    match payload with
    | none | some .null => .ok command
    | some value => Decoder.refuse value "no payload"
  | none =>
    match carriers.lookup type with
    | none => .error (.unknownName type)
    | some decode =>
      match payload with
      | some value => decode value
      | none => .error (.missingField "payload")

/-- Reads the name of a type from the member `type`, where it may also be written as
the one key of an object that holds null. -/
def decodeType : Decoder String
  | .string type => .ok type
  | .object [(type, .null)] => .ok type
  | value => Decoder.refuse value "a command type"

/-- The part of a document that is of interest for a message: the members `type` and
`payload`, in the order of writing. -/
def messageMembers (members : List (String × Json)) : List (String × Json) :=
  members.filter fun (key, _) => key == "type" || key == "payload"

/-- Reads a command. A payload that comes before the type has to be free of defects,
because it is read before anyone knows what for. In an array the type is always a
string. -/
def decode : Decoder Command
  | .object members =>
    match messageMembers members with
    | [("type", type)] => do ofType (← decodeType type) none
    | [("type", type), ("payload", payload)] => do ofType (← decodeType type) (some payload)
    | [("payload", payload), ("type", type)] => do
      if payload.sound then ofType (← decodeType type) (some payload)
      else Decoder.refuse payload "a document"
    | [] | [_] => .error (.missingField "type")
    | (_, _) :: (name, _) :: _ => .error (.repeatedField name)
  | .array [type, payload] => do ofType (← Decoder.string type) (some payload)
  | .array items => .error (.wrongLength items.length "a type and a payload")
  | value => Decoder.refuse value "a command"

/-- Reads a command from text. -/
def ofText (text : String) : Except String Command :=
  match Json.read? text with
  | some value => (decode value).mapError Mismatch.message
  | none => .error "not a JSON document"

end Command

end AppleOne
