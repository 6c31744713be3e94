import AppleOne.Pia.Basic
import AppleOne.Proofs.Pia.Waiting

/-!
# What the flags of the adapter remember

The adapter looks at its control lines at ticks only. A flag is up if at some tick its line was at
another level than at the tick before, in the direction that was active then, and the flag has not
been cleared since, by reading data or by a reset. What a line did between two ticks leaves no
trace; and what is written to the control register afterwards does not matter.

All of this is said about the operations alone: the levels of the lines, their levels at the last
tick and the bits that select directions and registers are read off what was done to the adapter.

## Main definitions

* `Pia.Operation`: what can be done to an adapter; `Pia.after`: the adapter after a history.
* `Pia.level`, `Pia.sampled`, `Pia.written`: what a history says about lines and control registers.
* `Pia.Remembers`: what a flag stands for.

## Main results

* `Pia.port_perform`: the part of each port in an operation.
* `Pia.line_after`, `Pia.control_after`: lines and control registers are what the history says.
* `Pia.flags_remember`: flags and interrupts.
-/

namespace AppleOne

/-! ## Control registers -/

namespace Port

variable (port : Port)

theorem control_write (value : UInt8) : (port.write value).control = port.control := by
  unfold write
  split <;> rfl

/-- Neither reading data nor a tick changes the bits that are no flags, and writing replaces
them. -/
theorem selection_read : port.read.2.control &&& ~~~flagMask = port.control &&& ~~~flagMask := by
  unfold read
  split
  · rw [UInt8.and_assoc, UInt8.and_self]
  · rfl

theorem selection_tick : port.tick.control &&& ~~~flagMask = port.control &&& ~~~flagMask := by
  have hflags : (0x80 : UInt8) &&& ~~~flagMask = 0 ∧ (0x40 : UInt8) &&& ~~~flagMask = 0 := by
    decide
  simp only [tick, and_or]
  cases port.c1Active <;> cases port.c2Active <;> simp [hflags]

theorem selection_writeControl (value : UInt8) :
    (port.writeControl value).control &&& ~~~flagMask = value &&& ~~~flagMask := by
  have hnone : flagMask &&& ~~~flagMask = 0 := by decide
  rw [writeControl, and_or, UInt8.and_assoc, hnone, UInt8.and_zero, UInt8.zero_or,
    UInt8.and_assoc, UInt8.and_self]

end Port

namespace Pia

/-! ## Sides and lines -/

/-- The two sides of the adapter. -/
inductive Side where
  | a
  | b
  deriving DecidableEq, Repr

namespace Side

/-- The port of a side. -/
def port (side : Side) (pia : Pia) : Port :=
  match side with
  | a => pia.a
  | b => pia.b

/-- Changes the port of a side. -/
def map (side : Side) (f : Port → Port) (pia : Pia) : Pia :=
  match side with
  | a => pia.mapA f
  | b => pia.mapB f

/-- The register for data and directions. -/
def data : Side → Register
  | a => .dataA
  | b => .dataB

/-- The control register. -/
def control : Side → Register
  | a => .controlA
  | b => .controlB

end Side

/-- The two control lines of a side. -/
inductive Line where
  | c1
  | c2
  deriving DecidableEq, Repr

namespace Line

/-- The line of a port. -/
def of (line : Line) (port : Port) : ControlLine :=
  match line with
  | c1 => port.c1
  | c2 => port.c2

/-- Sets the level of the line. -/
def set (line : Line) (level : Bool) (port : Port) : Port :=
  match line with
  | c1 => port.setC1 level
  | c2 => port.setC2 level

/-- The bit that remembers edges of the line. -/
def flag : Line → UInt8
  | c1 => 0x80
  | c2 => 0x40

/-- The bit that makes rising edges of the line active, not falling ones. -/
def rising : Line → UInt8
  | c1 => 0x02
  | c2 => 0x10

/-- The bits that keep edges of the line from counting. -/
def disabling : Line → UInt8
  | c1 => 0
  | c2 => 0x20

end Line

/-! ## Histories -/

/-- What can be done to an adapter. -/
inductive Operation where
  | read (offset : UInt16)
  | peek (offset : UInt16)
  | write (offset : UInt16) (value : UInt8)
  | setInput (side : Side) (value : UInt8)
  | setLine (side : Side) (line : Line) (level : Bool)
  | tick
  | takeStrobe
  | reset
  deriving DecidableEq, Repr

/-- Does it. -/
def Operation.perform (operation : Operation) (pia : Pia) : Pia :=
  match operation with
  | read offset => (pia.read offset).2
  | peek _ => pia
  | write offset value => pia.write offset value
  | setInput side value => side.map (·.setInput value) pia
  | setLine side line level => side.map (line.set level) pia
  | tick => pia.tick
  | takeStrobe => pia.takeStrobe.2
  | reset => pia.reset.1

/-- The adapter after operations that begin at power-on, the latest of them first. -/
def after (source : String) : List Operation → Pia
  | [] => .initial source
  | operation :: earlier => operation.perform (after source earlier)

/-- The level of a line: low until it is set, and again after a reset. -/
def level (side : Side) (line : Line) : List Operation → Bool
  | [] => false
  | .reset :: _ => false
  | .setLine side' line' level' :: earlier =>
    if side' = side ∧ line' = line then level' else level side line earlier
  | _ :: earlier => level side line earlier

/-- The level of a line at the last tick, low if there was none since power-on or reset. -/
def sampled (side : Side) (line : Line) : List Operation → Bool
  | [] => false
  | .reset :: _ => false
  | .tick :: earlier => level side line earlier
  | _ :: earlier => sampled side line earlier

/-- What was last written to a control register, zero if nothing was since power-on or reset. -/
def written (side : Side) : List Operation → UInt8
  | [] => 0
  | .reset :: _ => 0
  | .write offset value :: earlier =>
    if Register.ofOffset offset = side.control then value else written side earlier
  | _ :: earlier => written side earlier

/-- Whether a bit of the control register was written as one. -/
def selects (side : Side) (history : List Operation) (mask : UInt8) : Bool :=
  written side history &&& mask != 0

/-- A tick sees an active edge: the line has changed since the tick before, in the direction that
is selected, and its edges count. -/
structure Edge (side : Side) (line : Line) (history : List Operation) : Prop where
  changed : level side line history ≠ sampled side line history
  direction : level side line history = selects side history line.rising
  enabled : selects side history line.disabling = false

/-- An operation clears the flags of a side: it is a reset, or it reads the data register while
this is accessible. -/
def Clears (side : Side) (history : List Operation) : Operation → Prop
  | .reset => True
  | .read offset => Register.ofOffset offset = side.data ∧ selects side history 0x04 = true
  | _ => False

/-- There was a tick that saw an active edge, and nothing has cleared the flags since. -/
def Remembers (side : Side) (line : Line) (history : List Operation) : Prop :=
  ∃ later earlier, history = later ++ .tick :: earlier ∧ Edge side line earlier ∧
    ∀ last operation between, later = last ++ operation :: between →
      ¬ Clears side (between ++ .tick :: earlier) operation

variable {side : Side} {line : Line} {operation : Operation} {history : List Operation}

/-- A history remembers an edge that its latest operation saw, or one that it has not cleared. -/
theorem remembers_cons : Remembers side line (operation :: history) ↔
    operation = .tick ∧ Edge side line history ∨
      Remembers side line history ∧ ¬ Clears side history operation := by
  constructor
  · rintro ⟨later, earlier, heq, hedge, hkept⟩
    -- the edge was seen just now, or before the latest operation
    cases later with
    | nil =>
      obtain ⟨rfl, rfl⟩ := List.cons.inj heq
      exact .inl ⟨rfl, hedge⟩
    | cons latest later =>
      obtain ⟨rfl, rfl⟩ := List.cons.inj heq
      refine .inr ⟨⟨later, earlier, rfl, hedge, fun last operation between hlater => ?_⟩,
        hkept [] operation later rfl⟩
      exact hkept (_ :: last) operation between (congrArg _ hlater)
  · rintro (⟨rfl, hedge⟩ | ⟨⟨later, earlier, rfl, hedge, hkept⟩, hclears⟩)
    · exact ⟨[], history, rfl, hedge, fun _ _ _ hnil => by simp at hnil⟩
    · refine ⟨operation :: later, earlier, rfl, hedge, fun last other between hlater => ?_⟩
      -- what came after the edge is the latest operation, or it came before that
      cases last with
      | nil =>
        obtain ⟨rfl, rfl⟩ := List.cons.inj hlater
        exact hclears
      | cons latest last => exact hkept last other between (List.cons.inj hlater).2

/-! ## Ports -/

/-- The part of a port in an operation. -/
def Operation.onPort (operation : Operation) (side : Side) (port : Port) : Port :=
  match operation with
  | read offset => if Register.ofOffset offset = side.data then port.read.2 else port
  | write offset value =>
    if Register.ofOffset offset = side.data then port.write value
    else if Register.ofOffset offset = side.control then port.writeControl value else port
  | setInput side' value => if side' = side then port.setInput value else port
  | setLine side' line level => if side' = side then line.set level port else port
  | tick => port.tick
  | reset => .initial
  | peek _ | takeStrobe => port

/-- The ports have nothing to do with each other. -/
theorem port_perform (operation : Operation) (side : Side) (pia : Pia) :
    side.port (operation.perform pia) = operation.onPort side (side.port pia) := by
  cases operation with
  | read offset =>
    simp only [Operation.perform, Operation.onPort, Pia.read]
    cases side <;> cases Register.ofOffset offset <;> rfl
  | write offset value =>
    simp only [Operation.perform, Operation.onPort, Pia.write]
    cases side <;> cases Register.ofOffset offset <;> rfl
  | setInput side' value => cases side <;> cases side' <;> rfl
  | setLine side' line level => cases side <;> cases side' <;> rfl
  | peek | tick | takeStrobe | reset => cases side <;> rfl

/-! ## Lines -/

/-- The part of a line in an operation: its level is set, looked at or forgotten. -/
theorem of_onPort (operation : Operation) (side : Side) (line : Line) (port : Port) :
    line.of (operation.onPort side port) =
      match operation with
      | .setLine side' line' level =>
        if side' = side ∧ line' = line then { line.of port with level } else line.of port
      | .tick => (line.of port).settle
      | .reset => .low
      | _ => line.of port := by
  cases operation with
  | read offset =>
    simp only [Operation.onPort, Port.read]
    split
    · split <;> cases line <;> rfl
    · rfl
  | write offset value =>
    simp only [Operation.onPort, Port.write]
    split
    · split <;> cases line <;> rfl
    · split <;> cases line <;> rfl
  | setInput side' value =>
    simp only [Operation.onPort]
    split <;> cases line <;> rfl
  | setLine side' line' level =>
    simp only [Operation.onPort]
    by_cases hside : side' = side
    · simp only [hside, if_true, true_and]
      cases line <;> cases line' <;> rfl
    · simp only [hside, if_false, false_and]
  | peek | tick | takeStrobe | reset => cases line <;> rfl

/-- Lines have the levels that they were set to, and ticks have seen them. -/
theorem line_after (source : String) (history : List Operation) (side : Side) (line : Line) :
    line.of (side.port (after source history)) =
      ⟨level side line history, sampled side line history⟩ := by
  induction history with
  | nil => cases side <;> cases line <;> rfl
  | cons operation earlier ih =>
    rw [after, port_perform, of_onPort, ih]
    cases operation with
    | setLine side' line' level' =>
      simp only [level, sampled]
      split <;> rfl
    | read | peek | write | setInput | tick | takeStrobe | reset => rfl

/-! ## What is written to control registers -/

/-- The part of a control register in an operation. -/
theorem control_onPort (operation : Operation) (side : Side) (port : Port) :
    (operation.onPort side port).control =
      match operation with
      | .read offset =>
        if Register.ofOffset offset = side.data then port.read.2.control else port.control
      | .write offset value =>
        if Register.ofOffset offset = side.control then (port.writeControl value).control
        else port.control
      | .tick => port.tick.control
      | .reset => 0
      | _ => port.control := by
  cases operation with
  | read offset =>
    simp only [Operation.onPort]
    split <;> rfl
  | write offset value =>
    -- a write to the data register is none to the control register
    have hdistinct : side.data ≠ side.control := by cases side <;> decide
    simp only [Operation.onPort]
    split
    · next hdata => rw [if_neg (hdata ▸ hdistinct), port.control_write]
    · split <;> rfl
  | setInput side' value =>
    simp only [Operation.onPort]
    split <;> rfl
  | setLine side' line level =>
    simp only [Operation.onPort]
    split
    · cases line <;> rfl
    · rfl
  | peek | tick | takeStrobe | reset => rfl

/-- Apart from its flags a control register holds what was last written to it. -/
theorem control_after (source : String) (history : List Operation) (side : Side) :
    (side.port (after source history)).control &&& ~~~Port.flagMask =
      written side history &&& ~~~Port.flagMask := by
  induction history with
  | nil => cases side <;> rfl
  | cons operation earlier ih =>
    rw [after, port_perform, control_onPort]
    cases operation with
    | read offset =>
      simp only [written, ← ih]
      split
      · exact (side.port _).selection_read
      · rfl
    | write offset value =>
      simp only [written]
      split
      · exact (side.port _).selection_writeControl value
      · exact ih
    | tick => exact (side.port _).selection_tick.trans ih
    | reset => rfl
    | peek | setInput | setLine | takeStrobe => exact ih

/-- Bits that are no flags are those that were written. -/
theorem controlBit_after (source : String) (history : List Operation) (side : Side) {mask : UInt8}
    (hmask : ~~~Port.flagMask &&& mask = mask) :
    (side.port (after source history)).controlBit mask = selects side history mask := by
  have hbits := congrArg (· &&& mask != 0) (control_after source history side)
  simp only [UInt8.and_assoc, hmask] at hbits
  exact hbits

/-! ## Flags -/

/-- Whether the tick of a port sees an active edge of a line. -/
theorem edge_iff (source : String) (history : List Operation) (side : Side) (line : Line) :
    Edge side line history ↔
      (line.of (side.port (after source history))).edge
          ((side.port (after source history)).controlBit line.rising) = true ∧
        (side.port (after source history)).controlBit line.disabling = false := by
  rw [line_after, controlBit_after source history side (by cases line <;> decide),
    controlBit_after source history side (by cases line <;> decide), ControlLine.edge,
    Bool.and_eq_true, bne_iff_ne, beq_iff_eq, and_assoc]
  constructor
  · exact fun h => ⟨h.changed, h.direction, h.enabled⟩
  · rintro ⟨hchanged, hdirection, henabled⟩
    exact ⟨hchanged, hdirection, henabled⟩

/-- A tick raises the flag of a line whose edge is active. -/
theorem flag_tick (line : Line) (port : Port) :
    port.tick.controlBit line.flag =
      (port.controlBit line.flag ||
        (line.of port).edge (port.controlBit line.rising) && !port.controlBit line.disabling) := by
  -- each of the two edges has a flag of its own
  have hown : ((0x80 : UInt8) &&& 0x80 != 0) = true ∧ ((0x40 : UInt8) &&& 0x40 != 0) = true := by
    decide
  have hother : ((0x40 : UInt8) &&& 0x80 != 0) = false ∧
      ((0x80 : UInt8) &&& 0x40 != 0) = false := by
    decide
  rw [Port.controlBit_tick]
  cases line with
  | c1 =>
    have hnone : port.controlBit 0 = false := by simp [Port.controlBit]
    simp only [Line.flag, Line.rising, Line.disabling, Line.of, hown, hother, hnone, Port.c1Active,
      Bool.not_false, Bool.and_true, Bool.and_false, Bool.or_false]
  | c2 =>
    simp only [Line.flag, Line.rising, Line.disabling, Line.of, hown, hother, Port.c2Active,
      Bool.and_true, Bool.and_false, Bool.or_false]
    rw [Bool.and_comm (!port.controlBit 0x20)]

/-- A new port has no flag up. -/
theorem flag_initial (line : Line) : Port.initial.controlBit line.flag = false := by
  cases line <;> decide

/-- Reading data and resets clear flags, ticks raise them, and nothing else concerns them. -/
theorem flag_onPort (operation : Operation) (side : Side) (line : Line) (port : Port) :
    (operation.onPort side port).controlBit line.flag =
      match operation with
      | .read offset =>
        if Register.ofOffset offset = side.data ∧ port.dataSelected = true then false
        else port.controlBit line.flag
      | .tick => port.tick.controlBit line.flag
      | .reset => false
      | _ => port.controlBit line.flag := by
  have hflag : Port.flagMask &&& line.flag = line.flag := by cases line <;> decide
  rw [Port.controlBit, control_onPort]
  cases operation with
  | read offset =>
    by_cases hdata : Register.ofOffset offset = side.data
    · simp only [hdata, if_true, true_and]
      -- reading the direction register clears no flag
      cases hselected : port.dataSelected with
      | true => exact port.controlBit_read hflag hselected
      | false =>
        exact congrArg (Port.controlBit · line.flag) (port.read_of_not_dataSelected hselected)
    · simp only [hdata, if_false, false_and]
      rfl
  | write offset value =>
    simp only
    split
    · exact port.controlBit_writeControl hflag value
    · rfl
  | reset => exact flag_initial line
  | peek | setInput | setLine | tick | takeStrobe => rfl

/-- A flag is up if the history remembers an active edge of its line. -/
theorem flag_after (source : String) (history : List Operation) (side : Side) (line : Line) :
    (side.port (after source history)).controlBit line.flag = true ↔
      Remembers side line history := by
  induction history with
  | nil =>
    have hflag : (side.port (after source [])).controlBit line.flag = false := by
      cases side <;> exact flag_initial line
    rw [hflag]
    refine iff_of_false nofun ?_
    rintro ⟨later, before, heq, -, -⟩
    simp at heq
  | cons operation earlier ih =>
    rw [remembers_cons, ← ih, after, port_perform, flag_onPort]
    -- whether data is selected is what the history says was written
    have hselected : (side.port (after source earlier)).dataSelected = selects side earlier 0x04 :=
      controlBit_after source earlier side (by decide)
    cases operation with
    | read offset =>
      simp only [hselected, Clears, reduceCtorEq, false_and, false_or]
      split <;> simp [*]
    | tick =>
      rw [flag_tick, edge_iff source]
      simp only [Clears, Bool.or_eq_true, Bool.and_eq_true, Bool.not_eq_true', not_false_eq_true,
        and_true, true_and]
      exact or_comm
    | reset => simp [Clears]
    | peek | write | setInput | setLine | takeStrobe => simp [Clears]

/-- What is done in order is a history when it is read from the end. -/
theorem foldl_perform (source : String) (operations earlier : List Operation) :
    operations.foldl (fun pia operation => operation.perform pia) (after source earlier) =
      after source (operations.reverse ++ earlier) := by
  induction operations generalizing earlier with
  | nil => rfl
  | cons operation rest ih =>
    rw [List.foldl_cons, List.reverse_cons, List.append_assoc]
    exact ih (operation :: earlier)

/-- Whatever is done to an adapter from power-on, its flags are up exactly if there was a tick that
saw an active edge and they have not been cleared since. Otherwise its control registers hold what
was written to them. Neither writes nor peeks change a flag; and a side requests an interrupt if
one of its flags is up and enabled to do so, which the second one is only as long as its edges
count. -/
theorem flags_remember (source : String) (operations : List Operation) :
    let adapter := operations.foldl (fun pia operation => operation.perform pia) (.initial source)
    let history := operations.reverse
    ∀ side : Side,
      (∀ line : Line, (side.port adapter).controlBit line.flag = true ↔
        Remembers side line history) ∧
      (side.port adapter).control &&& ~~~Port.flagMask = written side history &&& ~~~Port.flagMask ∧
      (∀ (line : Line) (offset : UInt16) (value : UInt8),
        (side.port (adapter.write offset value)).controlBit line.flag =
          (side.port adapter).controlBit line.flag) ∧
      (∀ offset, (Operation.peek offset).perform adapter = adapter) ∧
      ((side.port adapter).interrupt = true ↔
        (side.port adapter).controlBit 0x80 = true ∧ (side.port adapter).controlBit 0x01 = true ∨
          (side.port adapter).controlBit 0x40 = true ∧
            (side.port adapter).controlBit 0x20 = false ∧
            (side.port adapter).controlBit 0x08 = true) := by
  intro adapter history side
  have hadapter : adapter = after source history :=
    (foldl_perform source operations []).trans (congrArg (after source) (List.append_nil _))
  rw [hadapter]
  refine ⟨flag_after source history side, control_after source history side, ?_, fun _ => rfl, ?_⟩
  · intro line offset value
    have hport := port_perform (.write offset value) side (after source history)
    exact (congrArg (Port.controlBit · line.flag) hport).trans (flag_onPort _ side line _)
  · simp only [Port.interrupt, Bool.or_eq_true, Bool.and_eq_true, Bool.not_eq_true', and_assoc]

end Pia

end AppleOne
