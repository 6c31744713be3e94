import AppleOne.Proofs.Wire.Text
import AppleOne.Wire.Command

/-!
# Commands as text

A command comes back from its text, whether it is written as an object with a type and a payload
or as an array of the two. So no two commands have the same text.

What a command carries may look like a command itself, or be null. This does no harm: the payload
of an object is told by its key and that of an array by its place. A command that carries a document
takes null for a document, and a command without data takes it for no payload.

## Main definitions

* `Command.Sendable`: the commands that a host can send.
* `Command.toText`, `Command.toPairText`: the two texts of a command.

## Main results

* `Command.ofType_of_payload`, `Command.ofType_of_payload_eq_none`: what is made of a type and a
  payload.
* `Command.readable_payload`: the data of a command is given back by text.
* `Command.sent_command_is_read`: both texts are read as the command, and no two commands have the
  same text.
-/

namespace AppleOne

open Json

theorem Json.decodes_signed64 {n : Int} (hlow : -0x8000000000000000 ≤ n)
    (hhigh : n ≤ 0x7FFFFFFFFFFFFFFF) : Decodes Decoder.signed64 (.int n) n := by
  intro form
  rw [apply_int]
  exact if_pos ⟨hlow, hhigh⟩

namespace Command

/-- The commands that a host can send. A stretch of memory starts at a signed number of 64 bits
and has a length of 64 bits. A document is a value without doubles whose members are sorted and
not repeated, and whose brackets leave room for those of the message around it. -/
def Sendable : Command → Prop
  | getMemoryRange first length =>
    -0x8000000000000000 ≤ first ∧ first ≤ 0x7FFFFFFFFFFFFFFF ∧ length < UInt64.size
  | loadState document => Readable (maxDepth - 1) document ∧ document.canonical = document
  | _ => True

/-- The text of a command. -/
def toText (command : Command) : String := command.encode.render

/-- A command as an array of its type and its payload, which is null if it carries no data. -/
def encodePair (command : Command) : Json :=
  .array [.string command.type, command.payload.getD .null]

/-- The text of a command as an array. -/
def toPairText (command : Command) : String := command.encodePair.render

variable {command : Command}

/-! ## Types and payloads -/

/-- A stretch of memory is read from its record. -/
theorem decodeRange_object {first : Int} {length : Nat} (hlow : -0x8000000000000000 ≤ first)
    (hhigh : first ≤ 0x7FFFFFFFFFFFFFFF) (hlength : length < UInt64.size) :
    decodeRange (.object [("start", .int first), ("length", .nat length)]) =
      .ok (getMemoryRange first length) :=
  decodes_object "memory range" (by simp)
    (Written.required (decodes_signed64 hlow hhigh)
      |>.map _
      |>.seq (.required (decodes_size hlength))) .written

/-- A command that carries data is made of its type and its payload. -/
theorem ofType_of_payload (h : command.Sendable) {payload : Json}
    (hpayload : command.payload = some payload) :
    ofType command.type (some payload) = .ok command := by
  cases command with
  | keyDown key =>
    obtain rfl := Option.some.inj hpayload
    rfl
  | setBreakpoint address =>
    obtain rfl := Option.some.inj hpayload
    exact congrArg (Except.map setBreakpoint) (decodes_word address .written)
  | clearBreakpoint address =>
    obtain rfl := Option.some.inj hpayload
    exact congrArg (Except.map clearBreakpoint) (decodes_word address .written)
  | runToAddress address =>
    obtain rfl := Option.some.inj hpayload
    exact congrArg (Except.map runToAddress) (decodes_word address .written)
  | getMemoryRange first length =>
    obtain rfl := Option.some.inj hpayload
    obtain ⟨hlow, hhigh, hlength⟩ := h
    exact decodeRange_object hlow hhigh hlength
  | loadState document =>
    obtain rfl := Option.some.inj hpayload
    obtain ⟨hreadable, hcanonical⟩ := h
    -- a document is taken as it is if it is in canonical form
    have hdocument : decodeDocument document = .ok document := by
      simp [decodeDocument, hreadable.sound, hcanonical]
    exact congrArg (Except.map loadState) hdocument
  | setRubout flag | setProfiling flag | setCycleAccurate flag | setDebuggerActive flag =>
    obtain rfl := Option.some.inj hpayload
    rfl
  | _ => cases hpayload

/-- A command without data is made of its type and no payload, or null. -/
theorem ofType_of_payload_eq_none (h : command.payload = none) :
    ofType command.type none = .ok command ∧
      ofType command.type (some .null) = .ok command := by
  cases command with
  | step | pauseEmulation | resumeEmulation | clearAllBreakpoints | getBreakpoints | saveState
  | debugInfo | reset | getLogs | start => exact ⟨rfl, rfl⟩
  | _ => cases h

/-! ## Documents -/

theorem decode_encode (h : command.Sendable) : decode command.encode = .ok command := by
  unfold encode
  cases hpayload : command.payload with
  | none => exact (ofType_of_payload_eq_none hpayload).1
  | some payload => exact ofType_of_payload h hpayload

theorem decode_encodePair (h : command.Sendable) : decode command.encodePair = .ok command := by
  unfold encodePair
  cases hpayload : command.payload with
  | none => exact (ofType_of_payload_eq_none hpayload).2
  | some payload => exact ofType_of_payload h hpayload

/-- The data of a command is given back by text. -/
theorem readable_payload (h : command.Sendable) :
    ∀ payload ∈ command.payload, Readable 126 payload := by
  intro payload hpayload
  cases command with
  | keyDown key =>
    obtain rfl := Option.some.inj hpayload
    exact .string key
  | setBreakpoint address | clearBreakpoint address | runToAddress address =>
    obtain rfl := Option.some.inj hpayload
    exact readable_word address
  | getMemoryRange first length =>
    obtain rfl := Option.some.inj hpayload
    obtain ⟨hlow, hhigh, hlength⟩ := h
    have hfirst : Readable 125 (.int first) :=
      .int hlow (Int.lt_of_le_of_lt hhigh (by decide))
    exact .object (by simp [hfirst, readable_nat hlength])
  | loadState document =>
    obtain rfl := Option.some.inj hpayload
    exact h.1
  | setRubout flag | setProfiling flag | setCycleAccurate flag | setDebuggerActive flag =>
    obtain rfl := Option.some.inj hpayload
    exact .bool flag
  | _ => cases hpayload

theorem readable_encode (h : command.Sendable) : Readable maxDepth command.encode := by
  have hpayload := readable_payload h
  unfold encode Json.message Json.tagged
  cases hcarried : command.payload with
  | none => exact .object (by simp)
  | some payload => exact .object (by simp [hpayload payload hcarried])

theorem readable_encodePair (h : command.Sendable) : Readable maxDepth command.encodePair := by
  have hpayload := readable_payload h
  unfold encodePair
  cases hcarried : command.payload with
  | none => exact .array (by simp [Readable.null])
  | some payload => exact .array (by simp [hpayload payload hcarried])

/-- A command is read from the text of a document that is decoded to it. -/
theorem ofText_render {document : Json} (hreadable : Readable maxDepth document)
    (hdecode : decode document = .ok command) : ofText document.render = .ok command := by
  unfold ofText
  rw [read?_render hreadable]
  exact congrArg (Except.mapError Mismatch.message) hdecode

/-- Every command that a host can send is read from its text as the same command: from the
object with its type and its payload, and from the array of the two. No other command that can be
sent has the same text. -/
theorem sent_command_is_read (command : Command) (h : command.Sendable) :
    ofText command.toText = .ok command ∧ ofText command.toPairText = .ok command ∧
      ∀ other : Command, other.Sendable → other.toText = command.toText → other = command := by
  have htext : ofText command.toText = .ok command :=
    ofText_render (readable_encode h) (decode_encode h)
  refine ⟨htext, ofText_render (readable_encodePair h) (decode_encodePair h), ?_⟩
  intro other hother heq
  have hread : ofText other.toText = .ok other :=
    ofText_render (readable_encode hother) (decode_encode hother)
  rw [heq, htext] at hread
  exact (Except.ok.inj hread).symm

/-- A document that looks like a command with a null payload, and a stretch of memory at the ends
of the ranges. -/
theorem sent_command_is_read_nested :
    ofText (loadState (.object [("payload", .null), ("type", .string "STEP")])).toText =
        .ok (loadState (.object [("payload", .null), ("type", .string "STEP")])) ∧
      ofText (getMemoryRange (-0x8000000000000000) 0xFFFFFFFFFFFFFFFF).toPairText =
        .ok (getMemoryRange (-0x8000000000000000) 0xFFFFFFFFFFFFFFFF) := by
  have hsorted : "payload" < "type" := by decide
  have hdocument : Sendable (loadState (.object [("payload", .null), ("type", .string "STEP")])) :=
    ⟨.object (by simp [Readable.null]), by
      simp only [canonical, canonicalMembers, insertMember, if_pos hsorted]⟩
  have hrange : Sendable (getMemoryRange (-0x8000000000000000) 0xFFFFFFFFFFFFFFFF) :=
    ⟨by decide, by decide, by decide⟩
  exact ⟨(sent_command_is_read _ hdocument).1, (sent_command_is_read _ hrange).2.1⟩

end Command

end AppleOne
