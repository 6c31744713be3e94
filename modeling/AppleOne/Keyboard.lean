import AppleOne.Pia.Basic

/-!
# The keyboard

Keys come with the names that a host gives them. Those that the machine knows have a
seven-bit code in capital letters; the others are ignored. A key press puts its code
on port A with the top bit set and sends a pulse down control line CA1, so that the
flag of CA1 rises whichever edge is active.

## Main definitions

* `Keyboard.code?`: the code of a named key.
* `Keyboard.press?`: the press of a key, as the adapter sees it.
-/

namespace AppleOne.Keyboard

/-- The code of the return key. -/
def returnCode : UInt8 := 0x0D

/-- The code of the rubout key. -/
def ruboutCode : UInt8 := 0x5F

/-- The code of the escape key. -/
def escapeCode : UInt8 := 0x1B

/-- The code of a printing key: capitals, digits and signs. -/
def printableCode? (c : Char) : Option UInt8 :=
  let code := c.toUpper.toNat
  if 0x20 ≤ code ∧ code ≤ 0x5F then some code.toUInt8 else none

/-- The code of a named key. -/
def code? (key : String) : Option UInt8 :=
  match key with
  | "Enter" | "Return" => some returnCode
  | "Backspace" | "Delete" => some ruboutCode
  | "Escape" | "Esc" => some escapeCode
  | "Space" => some 0x20
  | _ =>
    match key.toList with
    | [c] => printableCode? c
    | _ => none

/-- Puts a code on port A and pulses CA1. -/
def send (code : UInt8) (pia : Pia) : Pia :=
  let pia := pia.mapA (·.setInput (code ||| 0x80))
  let pia := (pia.mapA (·.setC1 true)).tick
  (pia.mapA (·.setC1 false)).tick

/-- The press of a named key, if the machine has that key. -/
def press? (key : String) (pia : Pia) : Option Pia :=
  (code? key).map (send · pia)

end AppleOne.Keyboard
