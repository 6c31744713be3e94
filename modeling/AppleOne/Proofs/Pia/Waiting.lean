import AppleOne.Keyboard
import Mathlib.Tactic.Common

/-!
# A key that waits at port A

A key press puts a code on port A and pulses control line CA1. Whichever edge of CA1 is
active, one of the two ticks of the pulse sees it, if the line was low before. From then on
the key waits: the flag of CA1 is up and the code stays on the port until the data register
is read, whatever is written to the adapter and however often it ticks.

## Main definitions

* `Pia.Waiting`: a key waits at port A.

## Main results

* `Port.controlBit_tick`, `Port.controlBit_writeControl`, `Port.controlBit_read`: what
  becomes of a bit of the control register.
* `Keyboard.waiting_send`: after a key press the key waits.
* `Pia.waiting_read`, `Pia.waiting_write`, `Pia.waiting_tick`: what keeps it waiting.
* `Pia.read_of_waiting`: how it is read.
-/

namespace AppleOne

/-! ## Bits of bytes -/

namespace Port

theorem and_or (a b mask : UInt8) : (a ||| b) &&& mask = a &&& mask ||| b &&& mask :=
  UInt8.toNat_inj.mp (by simp [Nat.and_or_distrib_right])

theorem and_or_ne_zero (a b mask : UInt8) :
    ((a ||| b) &&& mask != 0) = (a &&& mask != 0 || b &&& mask != 0) := by
  rw [and_or, Bool.eq_iff_iff]
  simp only [bne_iff_ne, ne_eq, UInt8.or_eq_zero_iff, Bool.or_eq_true]
  exact not_and_or

/-! ## Ports -/

variable (port : Port)

/-- A tick sets the flags of active edges and no other bit. -/
theorem controlBit_tick (mask : UInt8) :
    port.tick.controlBit mask =
      (port.controlBit mask || (port.c1Active && 0x80 &&& mask != 0) ||
        (port.c2Active && 0x40 &&& mask != 0)) := by
  -- each edge is active or not, and an active one sets the bit of its flag
  simp only [tick, controlBit, and_or_ne_zero]
  cases port.c1Active <;> cases port.c2Active <;> simp

section Flags

variable {mask : UInt8} (hmask : flagMask &&& mask = mask)

include hmask

/-- What is not a flag has no part in the flags. -/
theorem not_flagMask_and : ~~~flagMask &&& mask = 0 := by
  have hnone : ~~~flagMask &&& flagMask = 0 := by decide
  rw [← hmask, ← UInt8.and_assoc, hnone, UInt8.zero_and]

/-- The flags of the control register cannot be written. -/
theorem controlBit_writeControl (value : UInt8) :
    (port.writeControl value).controlBit mask = port.controlBit mask := by
  simp only [writeControl, controlBit, and_or_ne_zero, UInt8.and_assoc, hmask,
    not_flagMask_and hmask]
  simp

/-- Reading data lowers the flags. -/
theorem controlBit_read (hselected : port.dataSelected = true) :
    port.read.2.controlBit mask = false := by
  simp only [read, hselected, if_true, controlBit, UInt8.and_assoc, not_flagMask_and hmask]
  simp

end Flags

/-- Reading the direction register has no effect. -/
theorem read_of_not_dataSelected (h : port.dataSelected = false) : port.read.2 = port := by
  simp [read, h]

theorem write_c1 (value : UInt8) : (port.write value).c1 = port.c1 := by
  unfold write
  split <;> rfl

theorem read_c1 : port.read.2.c1 = port.c1 := by
  unfold read
  split <;> rfl

/-- If all data lines are inputs, the levels on them are read as data. -/
theorem read_of_inputs (hselected : port.dataSelected = true) (hdirection : port.direction = 0) :
    port.read.1 = port.input := by
  simp [read, peek, hselected, lines, hdirection]

end Port

namespace Pia

/-- A key waits at port A: the flag of CA1 is up, the code lies on the data lines, and CA1
is low again. -/
structure Waiting (code : UInt8) (adapter : Pia) : Prop where
  flag : adapter.a.controlBit 0x80 = true
  input : adapter.a.input = code ||| 0x80
  line : adapter.a.c1 = .low

/-- An access changes port A as its register says, or not at all. -/
theorem read_a (adapter : Pia) (offset : UInt16) :
    (adapter.read offset).2.a =
      if Register.ofOffset offset = .dataA then adapter.a.read.2 else adapter.a := by
  unfold read
  cases Register.ofOffset offset <;> rfl

theorem write_a (adapter : Pia) (offset : UInt16) (value : UInt8) :
    (adapter.write offset value).a =
      match Register.ofOffset offset with
      | .dataA => adapter.a.write value
      | .controlA => adapter.a.writeControl value
      | _ => adapter.a := by
  unfold write
  cases Register.ofOffset offset <;> rfl

variable {adapter : Pia} {code : UInt8}

/-- The line CA1 is out of reach of programs. -/
theorem read_c1 (adapter : Pia) (offset : UInt16) :
    (adapter.read offset).2.a.c1 = adapter.a.c1 := by
  rw [read_a]
  split
  · exact adapter.a.read_c1
  · rfl

theorem write_c1 (adapter : Pia) (offset : UInt16) (value : UInt8) :
    (adapter.write offset value).a.c1 = adapter.a.c1 := by
  rw [write_a]
  split
  · exact adapter.a.write_c1 value
  · rfl
  · rfl

/-- A tick leaves a low line low. -/
theorem tick_c1 (h : adapter.a.c1 = .low) : adapter.tick.a.c1 = .low := by
  have htick : adapter.tick.a.c1 = adapter.a.c1.settle := rfl
  rw [htick, h]
  rfl

/-- A key waits until it is read as data. -/
theorem waiting_read (h : adapter.Waiting code) {offset : UInt16}
    (hread : Register.ofOffset offset = .dataA → adapter.a.dataSelected = false) :
    (adapter.read offset).2.Waiting code := by
  -- the port is not read at all, or its direction register is
  have hport : (adapter.read offset).2.a = adapter.a := by
    rw [read_a]
    split
    · next hregister => exact adapter.a.read_of_not_dataSelected (hread hregister)
    · rfl
  exact ⟨hport ▸ h.flag, hport ▸ h.input, hport ▸ h.line⟩

/-- A key waits whatever is written. -/
theorem waiting_write (h : adapter.Waiting code) (offset : UInt16) (value : UInt8) :
    (adapter.write offset value).Waiting code := by
  refine ⟨?_, ?_, (adapter.write_c1 offset value).trans h.line⟩
  · rw [write_a]
    split
    · have hcontrol : (adapter.a.write value).control = adapter.a.control := by
        unfold Port.write
        split <;> rfl
      rw [Port.controlBit, hcontrol]
      exact h.flag
    · rw [Port.controlBit_writeControl _ (by decide)]
      exact h.flag
    · exact h.flag
  · rw [write_a]
    split
    · have hinput : (adapter.a.write value).input = adapter.a.input := by
        unfold Port.write
        split <;> rfl
      exact hinput.trans h.input
    · exact h.input
    · exact h.input

/-- A key waits however often the adapter ticks. -/
theorem waiting_tick (h : adapter.Waiting code) : adapter.tick.Waiting code := by
  refine ⟨?_, h.input, tick_c1 h.line⟩
  have htick : adapter.tick.a = adapter.a.tick := rfl
  rw [htick, Port.controlBit_tick, h.flag]
  rfl

/-- Reading a key that waits lowers both flags, and yields its code if the data lines are
inputs. -/
theorem read_of_waiting (h : adapter.Waiting code) (hselected : adapter.a.dataSelected = true) :
    (adapter.read 0).2.a.controlBit 0x80 = false ∧
      (adapter.read 0).2.a.controlBit 0x40 = false ∧
      (adapter.a.direction = 0 → (adapter.read 0).1 = code ||| 0x80) := by
  have hport : (adapter.read 0).2.a = adapter.a.read.2 := rfl
  have hvalue : (adapter.read 0).1 = adapter.a.read.1 := rfl
  rw [hport, hvalue]
  refine ⟨Port.controlBit_read _ (by decide) hselected,
    Port.controlBit_read _ (by decide) hselected, fun hdirection => ?_⟩
  rw [Port.read_of_inputs _ hselected hdirection, h.input]

end Pia

namespace Keyboard

/-- A pulse on a low line is seen by one of its two ticks, whichever edge is active. -/
theorem flag_pulse (port : Port) (h : port.c1 = .low) :
    ((port.setC1 true).tick.setC1 false).tick.controlBit 0x80 = true := by
  -- the first tick comes with a rising edge, the second with a falling one
  have hrising : (port.setC1 true).c1Active = port.controlBit 0x02 := by
    simp [Port.c1Active, Port.setC1, h, ControlLine.edge, ControlLine.low, Port.controlBit]
  have hcontrol : ((port.setC1 true).tick.setC1 false).controlBit 0x02 = port.controlBit 0x02 := by
    have hflags : ((0x80 : UInt8) &&& 0x02 != 0) = false ∧
        ((0x40 : UInt8) &&& 0x02 != 0) = false := by
      decide
    have htick := Port.controlBit_tick (port.setC1 true) 0x02
    simp only [hflags, Bool.and_false, Bool.or_false] at htick
    exact htick
  have hfalling : ((port.setC1 true).tick.setC1 false).c1Active = !port.controlBit 0x02 := by
    have hline : ((port.setC1 true).tick.setC1 false).c1 = ⟨false, true⟩ := rfl
    rw [Port.c1Active, hline, hcontrol]
    cases port.controlBit 0x02 <;> rfl
  have hraised : ((port.setC1 true).tick.setC1 false).controlBit 0x80 =
      (port.setC1 true).tick.controlBit 0x80 := rfl
  rw [Port.controlBit_tick, hfalling, hraised, Port.controlBit_tick, hrising]
  cases port.controlBit 0x02 <;> simp

/-- After a key press the key waits. -/
theorem waiting_send {adapter : Pia} (h : adapter.a.c1 = .low) (code : UInt8) :
    (send code adapter).Waiting code := by
  refine ⟨?_, rfl, rfl⟩
  exact flag_pulse (adapter.a.setInput (code ||| 0x80)) h

end Keyboard

end AppleOne
