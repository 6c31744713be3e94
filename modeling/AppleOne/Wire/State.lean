import AppleOne.Json.Reader
import AppleOne.SaveFile

/-!
# Documents of saved machines

The form in which registers, ports, screens and whole save files are written as JSON,
and how they are read back. Members that a document has too many are ignored.

## Main definitions

* `encode` and `decode` functions for every part of a save file.
* `SaveFile.ofJson`: reads a save file, looking at the version before anything else.
* `SaveFile.toText`, `SaveFile.ofText`: the same as text.
-/

namespace AppleOne

open Json Json.RecordDecoder

namespace Cpu.Registers

/-- The document of the registers. -/
def encode (r : Registers) : Json :=
  .object [("pc", .word r.pc), ("a", .byte r.a), ("x", .byte r.x), ("y", .byte r.y),
    ("sp", .byte r.sp), ("flag_n", .bool r.flags.negative), ("flag_v", .bool r.flags.overflow),
    ("flag_d", .bool r.flags.decimal), ("flag_i", .bool r.flags.interruptDisable),
    ("flag_z", .bool r.flags.zero), ("flag_c", .bool r.flags.carry),
    ("cycles", .word64 r.cycles), ("pending_irq", .bool r.irqPending),
    ("pending_nmi", .bool r.nmiPending)]

/-- The registers as a record. -/
def record : RecordDecoder Registers :=
  (fun pc a x y sp n v d i z c cycles irq nmi =>
      ⟨pc, a, x, y, sp, ⟨n, v, d, i, z, c⟩, cycles, irq, nmi⟩)
    <$> required "pc" Decoder.word <*> required "a" Decoder.byte <*> required "x" Decoder.byte
    <*> required "y" Decoder.byte <*> required "sp" Decoder.byte
    <*> required "flag_n" Decoder.bool <*> required "flag_v" Decoder.bool
    <*> required "flag_d" Decoder.bool <*> required "flag_i" Decoder.bool
    <*> required "flag_z" Decoder.bool <*> required "flag_c" Decoder.bool
    <*> required "cycles" Decoder.word64 <*> required "pending_irq" Decoder.bool
    <*> required "pending_nmi" Decoder.bool

/-- Reads the registers. -/
def decode : Decoder Registers := record.decode "registers"

end Cpu.Registers

namespace Pia

/-- The control lines of both ports, in the order in which documents give them. -/
structure LineLevels where
  ca1 : ControlLine
  ca2 : ControlLine
  cb1 : ControlLine
  cb2 : ControlLine
  deriving DecidableEq, Repr

namespace LineLevels

/-- The control lines of an adapter. -/
def ofState (state : State) : LineLevels :=
  ⟨state.a.c1, state.a.c2, state.b.c1, state.b.c2⟩

/-- The document of the control lines: all levels, then all earlier levels. -/
def encode (lines : LineLevels) : Json :=
  .object [("ca1", .bool lines.ca1.level), ("ca2", .bool lines.ca2.level),
    ("cb1", .bool lines.cb1.level), ("cb2", .bool lines.cb2.level),
    ("prev_ca1", .bool lines.ca1.previous), ("prev_ca2", .bool lines.ca2.previous),
    ("prev_cb1", .bool lines.cb1.previous), ("prev_cb2", .bool lines.cb2.previous)]

/-- The control lines as a record. -/
def record : RecordDecoder LineLevels :=
  (fun ca1 ca2 cb1 cb2 p1 p2 p3 p4 => ⟨⟨ca1, p1⟩, ⟨ca2, p2⟩, ⟨cb1, p3⟩, ⟨cb2, p4⟩⟩)
    <$> required "ca1" Decoder.bool <*> required "ca2" Decoder.bool
    <*> required "cb1" Decoder.bool <*> required "cb2" Decoder.bool
    <*> required "prev_ca1" Decoder.bool <*> required "prev_ca2" Decoder.bool
    <*> required "prev_cb1" Decoder.bool <*> required "prev_cb2" Decoder.bool

end LineLevels

/-- The document of both ports. -/
def State.encode (state : State) : Json :=
  .object [("ora", .byte state.a.output), ("orb", .byte state.b.output),
    ("ddra", .byte state.a.direction), ("ddrb", .byte state.b.direction),
    ("cra", .byte state.a.control), ("crb", .byte state.b.control),
    ("input_a", .byte state.a.input), ("input_b", .byte state.b.input),
    ("control_lines", (LineLevels.ofState state).encode)]

/-- Both ports as a record. The inputs may be left out. -/
def State.record : RecordDecoder State :=
  (fun ora orb ddra ddrb cra crb inputA inputB (lines : LineLevels) =>
      ⟨⟨ora, ddra, cra, inputA, lines.ca1, lines.ca2⟩,
        ⟨orb, ddrb, crb, inputB, lines.cb1, lines.cb2⟩⟩)
    <$> required "ora" Decoder.byte <*> required "orb" Decoder.byte
    <*> required "ddra" Decoder.byte <*> required "ddrb" Decoder.byte
    <*> required "cra" Decoder.byte <*> required "crb" Decoder.byte
    <*> withDefault "input_a" Decoder.byte 0 <*> withDefault "input_b" Decoder.byte 0
    <*> required "control_lines" (LineLevels.record.decode "control lines")

/-- Reads both ports. -/
def State.decode : Decoder State := State.record.decode "adapter"

end Pia

namespace Screen.State

/-- The document of a screen. -/
def encode (state : State) : Json :=
  .object [("rows", .ofList .string state.rows), ("cursor_row", .nat state.cursorRow),
    ("cursor_col", .nat state.cursorColumn), ("version", .word64 state.version)]

/-- A screen as a record. The version may be left out. -/
def record : RecordDecoder State :=
  State.mk <$> required "rows" (Decoder.list Decoder.string)
    <*> required "cursor_row" Decoder.size <*> required "cursor_col" Decoder.size
    <*> withDefault "version" Decoder.word64 0

/-- Reads a screen. -/
def decode : Decoder State := record.decode "screen"

end Screen.State

namespace Bank.Image

/-- The document of a bank image. -/
def encode (image : Bank.Image) : Json :=
  .object [("id", .string image.id), ("data", .ofList .byte image.data)]

/-- A bank image as a record. -/
def record : RecordDecoder Bank.Image :=
  Bank.Image.mk <$> required "id" Decoder.string <*> required "data" (Decoder.list Decoder.byte)

end Bank.Image

namespace Snapshot

/-- The member for the screen, which is left out if there is none. -/
def encodeScreen (screen : Option Screen.State) : List (String × Json) :=
  match screen with
  | some state => [("video", state.encode)]
  | none => []

/-- The document of a snapshot. -/
def encode (snapshot : Snapshot) : Json :=
  .object ([("ram", .ofList Bank.Image.encode snapshot.banks),
    ("cpu", snapshot.registers.encode), ("pia", snapshot.pia.encode)] ++
    encodeScreen snapshot.screen)

/-- A snapshot as a record. -/
def record : RecordDecoder Snapshot :=
  Snapshot.mk <$> required "ram" (Decoder.list (Bank.Image.record.decode "bank image"))
    <*> required "cpu" Cpu.Registers.decode <*> required "pia" Pia.State.decode
    <*> withDefault "video" (Decoder.option Screen.State.decode) none

end Snapshot

namespace SaveFile

/-- The document of a save file. -/
def encode (file : SaveFile) : Json :=
  .object [("version", .nat file.version.toNat), ("timestamp", .word64 file.timestamp),
    ("state", file.state.encode)]

/-- A save file as a record. -/
def record : RecordDecoder SaveFile :=
  SaveFile.mk <$> required "version" Decoder.word32 <*> required "timestamp" Decoder.word64
    <*> required "state" (Snapshot.record.decode "snapshot")

/-- The version number of a document, if it has one. -/
def versionOf? (document : Json) : Option Nat :=
  match document.get? "version" with
  | some (.int version) => if 0 ≤ version then some version.toNat else none
  | _ => none

/-- Reads a save file. The version is looked at first: whatever else a document of
another version holds, it is refused for its version. -/
def ofJson (document : Json) : Except LoadError SaveFile :=
  match versionOf? document with
  | none => .error .missingVersion
  | some version =>
    if version = currentVersion.toNat then
      (record.decode "save file" document).mapError .malformed
    else .error (.versionMismatch version)

/-- The text of a save file. -/
def toText (file : SaveFile) : String := file.encode.render

/-- Reads a save file from text. -/
def ofText (text : String) : Except LoadError SaveFile :=
  match Json.parse? text with
  | some document => ofJson document
  | none => .error .unreadable

end SaveFile

end AppleOne
