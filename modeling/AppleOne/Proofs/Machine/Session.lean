import AppleOne.Machine.Handle
import AppleOne.Proofs.Clock.Visits
import AppleOne.Proofs.Cpu.Step

/-!
# Sessions

A session is what a host does with a machine: it builds one, and then lets it carry out
commands, run slices, flash banks or reset, in any order and at any time of its own
choice. The states of a machine that matter are those that a session leads to.

A machine step is a step of the processor together with what the display and the adapter
do after it. A slice is made of such steps.

## Main definitions

* `Machine.Action`, and `Machine.act`, which carries one out.
* `Machine.run`: a session of a machine that was built.
* `Machine.advanceWithScreen`: a machine step that nobody can refuse.
* `Machine.Core`, and `Machine.core`: what instructions work on.
* `Machine.visits`: the machine steps that a slice attempts.

## Main results

* `Machine.run_induction`: what every action keeps holds throughout a session.
* `Machine.exists_pressKey`, `Machine.handle_loadState_of_ok`,
  `Machine.exists_handle_setProfiling`, `Machine.exists_onBank`, `Machine.flashRom_cases`: what a
  host changes between machine steps.
-/

namespace AppleOne.Machine

/-- What a host can do with a machine. -/
inductive Action where
  | command (time : Time) (command : Command)
  | slice (now : Nat)
  | reset (now : Nat)
  | flash (id : String) (payload : List UInt8)
  | flashJson (id : String) (payload : List Json)
  | flashRom (now : Nat) (payload : List UInt8)

/-- The machine after an action. -/
def act (machine : Machine) : Action → Machine
  | .command time command => (machine.handle time command).2
  | .slice now => (machine.slice now).2.1
  | .reset now => machine.reset now
  | .flash id payload => (machine.flash id payload).2
  | .flashJson id payload => (machine.flashJson id payload).2
  | .flashRom now payload => (machine.flashRom now payload).2

/-- The machine after a list of actions. -/
def run (machine : Machine) (actions : List Action) : Machine :=
  actions.foldl act machine

@[simp] theorem run_nil (machine : Machine) : machine.run [] = machine := rfl

@[simp] theorem run_cons (machine : Machine) (action : Action) (rest : List Action) :
    machine.run (action :: rest) = (machine.act action).run rest := rfl

@[simp] theorem run_append (machine : Machine) (first second : List Action) :
    machine.run (first ++ second) = (machine.run first).run second :=
  List.foldl_append

/-- What holds of a machine that was just built and is kept by every action, holds
throughout its sessions. -/
theorem run_induction {P : Machine → Prop} {machine : Machine} (hbuilt : P machine)
    (hact : ∀ machine action, P machine → P (machine.act action)) (actions : List Action) :
    P (machine.run actions) := by
  induction actions generalizing machine with
  | nil => exact hbuilt
  | cons action rest ih => exact ih (hact machine action hbuilt)

/-! ## What a host changes between machine steps -/

/-- A key press works on the bus. -/
theorem exists_pressKey (machine : Machine) (key : String) :
    ∃ bus, machine.pressKey key = machine.withBus bus := by
  unfold pressKey
  split
  · exact ⟨_, rfl⟩
  · exact ⟨_, rfl⟩

/-- A load command does to the machine what a load does. -/
theorem handle_loadState (machine : Machine) (time : Time) (document : Json) :
    (machine.handle time (.loadState document)).2 = (machine.load time.micros document).2 := by
  simp only [handle]
  split
  · next hanswer => rw [hanswer]
  · next hanswer => rw [hanswer]

/-- A document that is refused leaves a message. -/
theorem handle_loadState_of_error {document : Json} {reason : LoadError}
    (hfile : SaveFile.ofJson document = .error reason) (machine : Machine) (time : Time) :
    machine.handle time (.loadState document) =
      (.error reason.message,
        machine.note .error ("load state failed: " ++ reason.message)) := by
  simp only [handle, load, hfile]

/-- A document that is accepted is restored, which leaves a message too. -/
theorem handle_loadState_of_ok {document : Json} {file : SaveFile}
    (hfile : SaveFile.ofJson document = .ok file) (machine : Machine) (time : Time) :
    ∃ text, machine.handle time (.loadState document) =
      (.ok, (machine.restore time.micros file.state).note .info text) := by
  simp only [handle, load, hfile]
  exact ⟨_, rfl⟩

/-- Switching profiling changes the profile and nothing else. -/
theorem exists_handle_setProfiling (machine : Machine) (time : Time) (enabled : Bool) :
    ∃ counts, (machine.handle time (.setProfiling enabled)).2 =
      machine.mapCpu ({ · with profiling := enabled, counts }) := by
  obtain ⟨counts, hswitched⟩ := machine.runner.cpu.exists_switchProfiling enabled
  exact ⟨counts, congrArg (fun cpu => machine.mapCpu fun _ => cpu) hswitched⟩

/-- Acting on a bank is acting on the bus, or it leaves a message that there is no such bank. -/
theorem onBank_cases (machine : Machine) (id : String)
    (act : Bank → Except FlashRefusal Nat × Bank × List Note) :
    (machine.onBank id act).2 = machine.withBus (machine.bus.onBank id act).2 ∨
      ∃ note, (machine.onBank id act).2 = machine.report note := by
  unfold onBank
  split
  · next hanswer =>
    rw [hanswer]
    exact .inl rfl
  · exact .inr ⟨_, rfl⟩

/-- Either way it is the bus that is changed. -/
theorem exists_onBank (machine : Machine) (id : String)
    (act : Bank → Except FlashRefusal Nat × Bank × List Note) :
    ∃ bus, (machine.onBank id act).2 = machine.withBus bus := by
  rcases machine.onBank_cases id act with hacted | ⟨note, hreported⟩
  · exact ⟨_, hacted⟩
  · exact ⟨_, hreported⟩

/-- Flashing the ROM is flashing a bank, and a payload that is accepted is followed by a
reset. -/
theorem flashRom_cases (machine : Machine) (now : Nat) (payload : List UInt8) :
    (machine.flashRom now payload).2 = (machine.flash romName payload).2 ∨
      (machine.flashRom now payload).2 = (machine.flash romName payload).2.reset now := by
  unfold flashRom
  split
  · next hanswer =>
    rw [hanswer]
    exact .inr rfl
  · next hanswer =>
    rw [hanswer]
    exact .inl rfl

/-! ## Machine steps -/

/-- The processor and the screen, on which machine steps work. -/
abbrev Pair := Cpu Bus (Option StopEvent) × Screen

/-- The processor and the screen of a machine. -/
def pair (machine : Machine) : Pair := (machine.runner.cpu, machine.screen)

/-- What instructions work on and leave a trace in: the registers, the mapped components,
the last accesses, the profile and the screen. -/
structure Core where
  registers : Cpu.Registers
  mappings : List Mapping
  lastRead : Option Transfer
  lastWrite : Option Transfer
  profiling : Bool
  counts : Vector UInt64 256
  screen : Screen

/-- What instructions work on, of a processor and a screen. -/
def coreOf (pair : Pair) : Core where
  registers := pair.1.registers
  mappings := pair.1.memory.mappings
  lastRead := pair.1.memory.lastRead
  lastWrite := pair.1.memory.lastWrite
  profiling := pair.1.profiling
  counts := pair.1.counts
  screen := pair.2

/-- What instructions work on. -/
def core (machine : Machine) : Core := coreOf machine.pair

/-- A machine step that nobody can refuse. -/
def advanceWithScreen (pair : Pair) : Cpu.Outcome × Pair :=
  let (outcome, cpu) := pair.1.advance
  let (memory, screen) := serve cpu.memory pair.2
  (outcome, { cpu with memory }, screen)

/-- The machine steps that a slice attempts. -/
def visits (machine : Machine) (now : Nat) : List (Clock.Visit Pair) :=
  machine.runner.clock.sliceVisits now stepWithScreen machine.pair

end AppleOne.Machine
