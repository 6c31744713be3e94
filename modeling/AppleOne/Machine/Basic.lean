import AppleOne.Keyboard
import AppleOne.Wire.Response

/-!
# The machine

A machine is a processor on a bus of RAM, ROM and the peripheral adapter, with a clock,
a debugger, a keyboard and a screen. After every step the screen takes what was
written to port B, and the adapter looks at its control lines.

The host tells the machine what time it is; the machine tells the host what happened.

## Main definitions

* `Machine`, and `Machine.build?`, which builds one from a configuration.
* `Machine.slice`: one slice, with its events.
* `Machine.reset`, `Machine.flash`, `Machine.flashRom`.
* `Machine.snapshot`, `Machine.restore`, `Machine.load`.
-/

namespace AppleOne

/-- When the next debug snapshot is due. -/
structure SnapshotTimer where
  /-- The time between two snapshots, in microseconds. -/
  interval : Nat
  /-- When it was armed or last fired. -/
  last : Nat
  deriving DecidableEq, Repr

/-- Whether the time has passed. -/
def SnapshotTimer.elapsed (timer : SnapshotTimer) (now : Nat) : Bool :=
  timer.interval ≤ now - timer.last

/-- A complete machine. -/
structure Machine where
  runner : Runner Bus
  screen : Screen
  config : Config
  /-- Whether the host wants debug snapshots. -/
  watched : Bool
  timer : Option SnapshotTimer
  /-- The version of the screen that the host has last been told of. -/
  reportedVersion : UInt64
  lastSlice : SliceReport

namespace Machine

/-- The name under which the machine itself reports. -/
def logSource : String := "apple1"

/-- The name of the RAM bank. -/
def ramName : String := "ram"

/-- The name of the RAM bank for BASIC. -/
def basicRamName : String := "basic_ram"

/-- The name of the ROM bank. -/
def romName : String := "rom"

/-- The name of the peripheral adapter. -/
def piaName : String := "pia"

/-- The RAM from address zero up; there is none of size zero. -/
def mapRam (size : UInt32) (bus : Bus) : Except InvalidRange Bus :=
  if size = 0 then .ok bus
  else bus.map? 0 (size - 1).toUInt16 ramName (.ram (.zeros ramName 0 size.toNat ramName))

/-- The RAM for BASIC, if it is wanted. -/
def mapBasicRam (wanted : Bool) (bus : Bus) : Except InvalidRange Bus :=
  if wanted then
    bus.map? 0xE000 0xEFFF basicRamName (.ram (.zeros basicRamName 0xE000 0x1000 basicRamName))
  else .ok bus

/-- The report of a RAM that was made smaller than wanted. -/
def clampNote (wanted size : UInt32) : Option Note :=
  if size = wanted then none
  else some ⟨.warn, logSource, "ram_size 0x" ++ Text.hexNat 1 wanted.toNat ++
    " overlaps I/O, clamped to 0x" ++ Text.hexNat 1 size.toNat⟩

/-- The address space of a machine. -/
def buildBus? (config : Config) : Except InvalidRange Bus := do
  let size := min config.ramSize Config.maxRamSize
  let bus := (Bus.empty config.logCapacity).reportAny (clampNote config.ramSize size)
  let bus ← mapRam size bus
  let bus ← bus.map? 0xD010 0xD013 piaName (.pia (.initial piaName))
  let bus ← mapBasicRam config.basic bus
  bus.map? 0xFF00 0xFFFF romName (.rom (.zeros romName 0xFF00 0x100 romName))

/-- A machine that has just been switched on. -/
def build? (config : Config) (now : Nat) : Except InvalidRange Machine := do
  let bus ← buildBus? config
  let (clock, note) := Clock.initial config now
  let cpu := Cpu.powerOn bus none
  return {
    runner := ⟨{ cpu with memory := cpu.memory.reportAny note }, clock, .initial⟩
    screen := .empty config.rubout
    config
    watched := false
    timer := none
    reportedVersion := 0
    lastSlice := .empty }

/-- The bus. -/
def bus (machine : Machine) : Bus := machine.runner.cpu.memory

/-- Changes the bus. -/
def withBus (machine : Machine) (bus : Bus) : Machine :=
  { machine with runner :=
    { machine.runner with cpu := { machine.runner.cpu with memory := bus } } }

/-- Changes the processor. -/
def mapCpu (f : Cpu Bus (Option StopEvent) → Cpu Bus (Option StopEvent)) (machine : Machine) :
    Machine :=
  { machine with runner := { machine.runner with cpu := f machine.runner.cpu } }

/-- The peripheral adapter. -/
def pia (machine : Machine) : Pia := machine.bus.pia?.getD (.initial piaName)

/-- Keeps a message in the log. -/
def report (machine : Machine) (note : Note) : Machine :=
  machine.withBus (machine.bus.report note)

/-- Keeps a message of the machine itself in the log. -/
def note (machine : Machine) (level : Level) (text : String) : Machine :=
  machine.report ⟨level, logSource, text⟩

/-- Hands out the log. -/
def drainLog (machine : Machine) : List Log.Entry × Machine :=
  let (entries, log) := machine.bus.log.drain
  (entries, machine.withBus { machine.bus with log })

/-! ## The display -/

/-- Takes the character that waits at port B, if there is one, and makes the display
ready for the next. -/
def takeCharacter (pia : Pia) : Option UInt8 × Pia :=
  let (waiting, pia) := pia.takeStrobe
  if waiting then
    (some (pia.b.output &&& 0x7F), pia.mapB fun port => port.setInput (port.input &&& 0x7F))
  else (none, pia)

/-- What the adapter does after a step: hands out a character and ticks. -/
def servePia (pia : Pia) : Option UInt8 × Pia :=
  let (character, pia) := takeCharacter pia
  (character, pia.tick)

/-- Lets the adapter and the screen catch up with a step of the processor. -/
def serve (bus : Bus) (screen : Screen) : Bus × Screen :=
  let (answer, bus) := bus.onPia servePia
  match answer.join with
  | some code => (bus, (screen.write code).2)
  | none => (bus, screen)

/-- A step of the processor with its effect on the screen. -/
def stepWithScreen (state : Cpu Bus (Option StopEvent) × Screen) :
    Cpu.Outcome × Cpu Bus (Option StopEvent) × Screen :=
  let (cpu, screen) := state
  let (outcome, cpu) := cpu.step
  if outcome.wasRefused then (outcome, cpu, screen)
  else
    let (memory, screen) := serve cpu.memory screen
    (outcome, { cpu with memory }, screen)

/-! ## Debug snapshots -/

/-- Everything that a debugger is shown. -/
def view (machine : Machine) : Machine.View where
  cpu := machine.runner.cpu.view
  pia := machine.pia.view
  bus := machine.bus.view
  clock := machine.runner.clock.view
  debugger := machine.runner.debugger.view
  lastSlice := machine.lastSlice
  profile := if machine.runner.cpu.profiling then machine.runner.cpu.profile else []

/-- Starts waiting for the next debug snapshot, if the host wants any. -/
def restartTimer (machine : Machine) (now : Nat) : Machine :=
  let interval := Config.micros (machine.config.pushInterval !machine.runner.clock.running)
  { machine with timer := if machine.watched then some ⟨interval, now⟩ else none }

/-! ## Slices -/

/-- The event of a changed screen, if the host does not know of it yet. -/
def videoEvents (machine : Machine) : List Event × Machine :=
  if machine.screen.version = machine.reportedVersion then ([], machine)
  else ([.videoUpdated machine.screen.state],
    { machine with reportedVersion := machine.screen.version })

/-- The event of a debug snapshot, if one is due. -/
def timedEvents (machine : Machine) (now : Nat) : List Event × Machine :=
  match machine.timer with
  | some timer =>
    if timer.elapsed now then
      ([.debugSnapshot machine.view],
        { machine with timer := some { timer with last := now } })
    else ([], machine)
  | none => ([], machine)

/-- The event of new messages, if there are any. -/
def logEvents (machine : Machine) : List Event × Machine :=
  let (entries, machine) := machine.drainLog
  (if entries.isEmpty then [] else [.log entries], machine)

/-- The event of a stop, if the slice ended with one. -/
def stopEvents (machine : Machine) (now : Nat) : List Event × Machine :=
  match machine.runner.takeStop with
  | (none, _) => ([], machine)
  | (some event, runner) => ([.stopped event], { machine with runner }.restartTimer now)

/-- Runs the processor and the screen for one slice, and gives back the time at which
that was done. -/
def execute (machine : Machine) (now : Nat) : Machine × Nat :=
  let ⟨⟨cpu, clock, debugger⟩, screen, config, active, push, reported, _⟩ := machine
  let (lastSlice, clock, (cpu, screen), now) :=
    clock.slice now stepWithScreen (cpu, screen)
  (⟨⟨cpu, clock, debugger⟩, screen, config, active, push, reported, lastSlice⟩, now)

/-- One slice with its events, and the time at which it was run. -/
def slice (machine : Machine) (now : Nat) : List Event × Machine × Nat :=
  let (machine, now) := machine.execute now
  let (stops, machine) := machine.stopEvents now
  let (videos, machine) := machine.videoEvents
  let (pushes, machine) := machine.timedEvents now
  let (logs, machine) := machine.logEvents
  (stops ++ videos ++ pushes ++ logs, machine, now)

/-- The reset line of the machine. Memory and screen stay as they are. -/
def reset (machine : Machine) (now : Nat) : Machine :=
  let machine := machine.withBus machine.bus.reset
  let machine := machine.mapCpu Cpu.reset
  let runner := { machine.runner with clock := machine.runner.clock.rebase now }
  { machine with runner := runner.clearStop }

/-! ## Flashing -/

/-- Lets a bank do something, or reports that there is no such bank. -/
def onBank (machine : Machine) (id : String)
    (act : Bank → Except FlashRefusal Nat × Bank × List Note) :
    Except FlashRefusal Nat × Machine :=
  match machine.bus.onBank id act with
  | (some result, bus) => (result, machine.withBus bus)
  | (none, _) =>
    (.error (.unknownBank id), machine.note .error (FlashRefusal.unknownBank id).message)

/-- Flashes bytes into a bank. -/
def flash (machine : Machine) (id : String) (payload : List UInt8) :
    Except FlashRefusal Nat × Machine :=
  machine.onBank id (·.flash payload)

/-- Flashes arbitrary values into a bank. -/
def flashJson (machine : Machine) (id : String) (payload : List Json) :
    Except FlashRefusal Nat × Machine :=
  machine.onBank id (·.flashJson payload)

/-- Flashes the ROM and resets the machine. -/
def flashRom (machine : Machine) (now : Nat) (payload : List UInt8) :
    Except FlashRefusal Nat × Machine :=
  match machine.flash romName payload with
  | (.ok stored, machine) => (.ok stored, machine.reset now)
  | (.error reason, machine) => (.error reason, machine)

/-! ## Saving and loading -/

/-- The present state of the machine. -/
def snapshot (machine : Machine) : Snapshot where
  banks := machine.bus.banks.map Bank.image
  registers := machine.runner.cpu.registers
  pia := machine.pia.state
  screen := some machine.screen.state

/-- Puts an image into its bank. -/
def fillBank (bus : Bus) (image : Bank.Image) : Bus :=
  match bus.onBank image.id (fun bank =>
      let (bank, note) := bank.fillFrom image.data
      ((), bank, note.toList)) with
  | (some _, bus) => bus
  | (none, bus) => bus.report ⟨.warn, logSource,
      "save state bank '" ++ image.id ++ "' is not mapped, skipped"⟩

/-- Puts the machine into a saved state. Breakpoints, run mode and pacing mode are not
part of it and stay. -/
def restore (machine : Machine) (now : Nat) (snapshot : Snapshot) : Machine :=
  let bus := snapshot.banks.foldl fillBank machine.bus
  let (_, bus) := bus.onPia fun pia => ((), pia.restore snapshot.pia)
  let machine := (machine.withBus bus).mapCpu (·.restore snapshot.registers)
  let runner := { machine.runner with clock := machine.runner.clock.rebase now }
  { machine with
    runner := runner.clearStop
    screen := match snapshot.screen with
      | some state => machine.screen.restore state
      | none => machine.screen }

/-- Loads a save file, or reports why that cannot be done. -/
def load (machine : Machine) (now : Nat) (document : Json) : Except LoadError Unit × Machine :=
  match SaveFile.ofJson document with
  | .error reason =>
    (.error reason, machine.note .error ("load state failed: " ++ reason.message))
  | .ok file =>
    (.ok (), (machine.restore now file.state).note .info
      ("state loaded (version " ++ toString file.version.toNat ++ ", saved at " ++
        toString file.timestamp.toNat ++ ")"))

/-- Loads a save file from text. -/
def loadText (machine : Machine) (now : Nat) (text : String) : Except LoadError Unit × Machine :=
  match Json.parse? text with
  | some document => machine.load now document
  | none => (.error .unreadable, machine)

end Machine

end AppleOne
