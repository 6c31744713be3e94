import AppleOne.Log.Basic
import AppleOne.Pia.Port

/-!
# The peripheral adapter

The adapter joins two ports under four addresses: data and control of port A, then
data and control of port B. The keyboard sits at port A and the display at port B; a
write to B's data register is remembered until the display takes it.

## Main definitions

* `Pia`, with `Pia.read`, `Pia.peek` and `Pia.write` by register number.
* `Pia.takeStrobe`: whether the display has something to take.
* `Pia.state`, `Pia.restore`: what a saved machine keeps of it.
-/

namespace AppleOne

/-- The two ports. -/
structure Pia.State where
  a : Port
  b : Port
  deriving DecidableEq, Repr

/-- The adapter. -/
structure Pia where
  ports : Pia.State
  /-- Whether B's data register was written since the display last looked. -/
  strobe : Bool
  /-- The name under which the adapter reports. -/
  source : String
  deriving DecidableEq, Repr

namespace Pia

/-- The ports after reset. -/
def State.initial : State := ⟨.initial, .initial⟩

/-- An adapter after reset. -/
def initial (source : String) : Pia := ⟨.initial, false, source⟩

/-- Port A. -/
def a (pia : Pia) : Port := pia.ports.a

/-- Port B. -/
def b (pia : Pia) : Port := pia.ports.b

/-- Changes port A. -/
def mapA (f : Port → Port) (pia : Pia) : Pia :=
  { pia with ports := { pia.ports with a := f pia.ports.a } }

/-- Changes port B. -/
def mapB (f : Port → Port) (pia : Pia) : Pia :=
  { pia with ports := { pia.ports with b := f pia.ports.b } }

/-- The registers of the adapter. -/
inductive Register where
  | dataA
  | controlA
  | dataB
  | controlB
  deriving DecidableEq, Repr

/-- The register at an offset. The four of them repeat. -/
def Register.ofOffset (offset : UInt16) : Register :=
  if offset % 4 = 0 then dataA
  else if offset % 4 = 1 then controlA
  else if offset % 4 = 2 then dataB
  else controlB

/-- The value of a register. -/
def peek (pia : Pia) (offset : UInt16) : UInt8 :=
  match Register.ofOffset offset with
  | .dataA => pia.a.peek
  | .controlA => pia.a.control
  | .dataB => pia.b.peek
  | .controlB => pia.b.control

/-- Reads a register, with the effects of reading data. -/
def read (pia : Pia) (offset : UInt16) : UInt8 × Pia :=
  match Register.ofOffset offset with
  | .dataA => (pia.a.read.1, pia.mapA (·.read.2))
  | .dataB => (pia.b.read.1, pia.mapB (·.read.2))
  | _ => (pia.peek offset, pia)

/-- Writes a register; new data at port B raise the strobe. -/
def write (pia : Pia) (offset : UInt16) (value : UInt8) : Pia :=
  match Register.ofOffset offset with
  | .dataA => pia.mapA (·.write value)
  | .controlA => pia.mapA (·.writeControl value)
  | .dataB => { pia.mapB (·.write value) with strobe := pia.strobe || pia.b.dataSelected }
  | .controlB => pia.mapB (·.writeControl value)

/-- Lets both ports look at their control lines. -/
def tick (pia : Pia) : Pia :=
  (pia.mapA Port.tick).mapB Port.tick

/-- Lowers the strobe and tells whether it was up. -/
def takeStrobe (pia : Pia) : Bool × Pia :=
  (pia.strobe, { pia with strobe := false })

/-- The reset line. -/
def reset (pia : Pia) : Pia × Note :=
  (.initial pia.source, ⟨.info, pia.source, "reset"⟩)

/-- What is saved of the adapter. -/
def state (pia : Pia) : State := pia.ports

/-- Puts the ports into a saved state, with the strobe down. -/
def restore (pia : Pia) (state : State) : Pia :=
  { pia with ports := state, strobe := false }

/-- What a debugger shows of the adapter. -/
structure View where
  state : State
  interruptA : Bool
  interruptB : Bool
  deriving DecidableEq, Repr

/-- The present view of the adapter. -/
def view (pia : Pia) : View := ⟨pia.state, pia.a.interrupt, pia.b.interrupt⟩

end Pia

end AppleOne
