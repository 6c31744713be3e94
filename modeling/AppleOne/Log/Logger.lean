import AppleOne.Log.Fault

/-!
# Loggers

A component reports through a logger, which bears its name. Any number of loggers feed the same
log. A message that is reported through one of them and opens a new entry there is also passed on
to whoever listens outside; the repetitions that are folded into it are not.

## Main definitions

* `Logger`, with `Logger.note` and `Logger.faultNote` for its messages.
* `Log.emit`: takes a message in and passes it on if it is news.
-/

namespace AppleOne

/-- The name under which a component reports. -/
structure Logger where
  source : String
  deriving DecidableEq, Repr

namespace Logger

/-- A message of the component. -/
def note (logger : Logger) (level : Level) (text : String) : Note :=
  ⟨level, logger.source, text⟩

/-- The message of a fault that the component has noticed. -/
def faultNote (logger : Logger) (fault : Fault) (detail : String) : Note :=
  fault.note logger.source detail

end Logger

/-- Takes a message in, and tells which one is passed on. -/
def Log.emit (log : Log) (note : Note) : Option Note × Log :=
  (if log.startsRun note then some note else none, log.add note)

end AppleOne
