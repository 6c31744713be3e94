import AppleOne.Wire.Command
import AppleOne.Wire.View

/-!
# Responses and events

A machine answers every command with a response, and every slice with a list of
events. Both are written like commands, with a type and perhaps a payload.

## Main definitions

* `Response` and `Response.encode`.
* `Event` and `Event.encode`.
-/

namespace AppleOne

/-- The answer to a command. -/
inductive Response where
  | ok
  | status (text : String)
  | breakpoints (addresses : List UInt16)
  | runToAddress (target : Option UInt16)
  | memory (bytes : List UInt8)
  | saveState (file : SaveFile)
  | debug (view : Machine.View)
  | logs (entries : List Log.Entry)
  | error (text : String)

/-- The document of a response. -/
def Response.encode : Response → Json
  | ok => .message "ok" none
  | status text => .message "status" (some (.string text))
  | breakpoints addresses => .message "breakpoints" (some (.ofList .word addresses))
  | runToAddress target => .message "run_to_address" (some (.ofOption .word target))
  | memory bytes => .message "memory" (some (.ofList .byte bytes))
  | saveState file => .message "save_state" (some file.encode)
  | debug view => .message "debug" (some view.encode)
  | logs entries => .message "logs" (some (.ofList Log.Entry.encode entries))
  | error text => .message "error" (some (.string text))

/-- Something that happened in a slice or was due at its end. -/
inductive Event where
  | stopped (event : StopEvent)
  | videoUpdated (state : Screen.State)
  | debugSnapshot (view : Machine.View)
  | log (entries : List Log.Entry)

/-- The document of an event. -/
def Event.encode : Event → Json
  | stopped event => .message event.name (some (.word event.pc))
  | videoUpdated state => .message "video_updated" (some state.encode)
  | debugSnapshot view => .message "debug_snapshot" (some view.encode)
  | log entries => .message "log" (some (.ofList Log.Entry.encode entries))

end AppleOne
