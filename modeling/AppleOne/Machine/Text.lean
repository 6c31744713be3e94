import AppleOne.Machine.Handle
import AppleOne.Wire.Config

/-!
# The text interface

For hosts that only exchange strings: configurations, commands and payloads come as
JSON text, and answers go out as JSON text.

## Main definitions

* `Machine.handleText`: the answer to a command.
* `Machine.sliceText`: the events of a slice.
* `Machine.flashText?`: flashes a payload.
-/

namespace AppleOne.Machine

/-- The answer to a command; a text that is none gets an error for an answer. -/
def handleText (machine : Machine) (time : Time) (text : String) : String × Machine :=
  match Command.ofText text with
  | .ok command =>
    let (response, machine) := machine.handle time command
    (response.encode.render, machine)
  | .error reason =>
    ((Response.error ("unrecognized command: " ++ reason)).encode.render, machine)

/-- The events of a slice, and the time at which it was run. -/
def sliceText (machine : Machine) (now : Nat) : String × Machine × Nat :=
  let (events, machine, now) := machine.slice now
  ((Json.ofList Event.encode events).render, machine, now)

/-- Flashes a payload that comes as an array of values. There is no answer if the text
is no array or the payload is refused. -/
def flashText? (machine : Machine) (id : String) (text : String) : Option Nat × Machine :=
  match Json.parse? text with
  | some (.array payload) =>
    let (result, machine) := machine.flashJson id payload
    (result.toOption, machine)
  | _ => (none, machine)

/-- The version of the screen as a double, which is exact up to 2 ^ 53. -/
def screenVersion (machine : Machine) : Float :=
  machine.screen.version.toFloat

end AppleOne.Machine
