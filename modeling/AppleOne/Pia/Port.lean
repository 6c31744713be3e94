/-!
# Ports of the peripheral adapter

A port has eight data lines, each an input or an output as its direction bit says,
and two control lines, C1 and C2, whose edges set flags in the control register. Of
that register the program can write the low six bits, and reading the data register
clears the two flags.

| bit | meaning |
|-----|---------|
| 7 | an active edge of C1 was seen |
| 6 | an active edge of C2 was seen |
| 5 | C2 is an output, and its edges do not count |
| 4 | rising edges of C2 are active, not falling ones |
| 3 | bit 6 requests an interrupt |
| 2 | the data register is accessible, not the direction register |
| 1 | rising edges of C1 are active, not falling ones |
| 0 | bit 7 requests an interrupt |

## Main definitions

* `Port`, with `Port.read`, `Port.peek` and `Port.write` for its first register.
* `Port.tick`: looks at the control lines and sets flags.
* `Port.interrupt`: whether the port requests an interrupt.
-/

namespace AppleOne

/-- One of the two control lines: its level, and its level at the last tick. -/
structure ControlLine where
  level : Bool
  previous : Bool
  deriving DecidableEq, Repr

namespace ControlLine

/-- A line that has always been low. -/
def low : ControlLine := ⟨false, false⟩

/-- Whether the line went up or down, as asked, since the last tick. -/
def edge (line : ControlLine) (rising : Bool) : Bool :=
  line.level != line.previous && line.level == rising

/-- The line after a tick. -/
def settle (line : ControlLine) : ControlLine :=
  { line with previous := line.level }

end ControlLine

/-- One side of the adapter. -/
structure Port where
  output : UInt8
  /-- A set bit makes the data line an output. -/
  direction : UInt8
  control : UInt8
  /-- The levels that the outside puts on the data lines. -/
  input : UInt8
  c1 : ControlLine
  c2 : ControlLine
  deriving DecidableEq, Repr

namespace Port

/-- A port after reset. -/
def initial : Port := ⟨0, 0, 0, 0, .low, .low⟩

/-- The two flags of the control register. -/
def flagMask : UInt8 := 0xC0

/-- Whether a bit of the control register is set. -/
def controlBit (port : Port) (mask : UInt8) : Bool :=
  port.control &&& mask != 0

/-- Whether the data register is accessible. -/
def dataSelected (port : Port) : Bool := port.controlBit 0x04

/-- The levels on the data lines. -/
def lines (port : Port) : UInt8 :=
  port.input &&& ~~~port.direction ||| port.output &&& port.direction

/-- The data or the direction register, whichever is accessible. -/
def peek (port : Port) : UInt8 :=
  if port.dataSelected then port.lines else port.direction

/-- Reads the data or the direction register; reading data clears the flags. -/
def read (port : Port) : UInt8 × Port :=
  (port.peek,
    if port.dataSelected then { port with control := port.control &&& ~~~flagMask } else port)

/-- Writes the data or the direction register. -/
def write (port : Port) (value : UInt8) : Port :=
  if port.dataSelected then { port with output := value } else { port with direction := value }

/-- Writes the control register except for its flags. -/
def writeControl (port : Port) (value : UInt8) : Port :=
  { port with control := port.control &&& flagMask ||| value &&& ~~~flagMask }

/-- Whether the edge of C1 counts that lies since the last tick. -/
def c1Active (port : Port) : Bool :=
  port.c1.edge (port.controlBit 0x02)

/-- Whether the edge of C2 counts that lies since the last tick. -/
def c2Active (port : Port) : Bool :=
  !port.controlBit 0x20 && port.c2.edge (port.controlBit 0x10)

/-- Sets the flags of active edges since the last tick. -/
def tick (port : Port) : Port :=
  let c1Flag := if port.c1Active then 0x80 else 0
  let c2Flag := if port.c2Active then 0x40 else 0
  { port with
    control := port.control ||| c1Flag ||| c2Flag
    c1 := port.c1.settle
    c2 := port.c2.settle }

/-- Whether the port requests an interrupt. -/
def interrupt (port : Port) : Bool :=
  port.controlBit 0x80 && port.controlBit 0x01 ||
    port.controlBit 0x40 && !port.controlBit 0x20 && port.controlBit 0x08

/-- Puts levels on the data lines. -/
def setInput (port : Port) (value : UInt8) : Port := { port with input := value }

/-- Sets the level of C1. -/
def setC1 (port : Port) (level : Bool) : Port :=
  { port with c1 := { port.c1 with level } }

/-- Sets the level of C2. -/
def setC2 (port : Port) (level : Bool) : Port :=
  { port with c2 := { port.c2 with level } }

end Port

end AppleOne
