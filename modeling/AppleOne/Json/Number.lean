import AppleOne.Json.Basic

/-!
# Number literals

A number literal is an optional minus sign, an integer part without leading zeros,
and optional fraction and exponent. Without fraction and exponent it is an integer
if it fits in 64 bits; a minus sign before zero makes it a double.

A double is computed from at most as many significant digits as fit in 64 bits, then
scaled by one power of ten or two, so its last bit may differ from that of the
nearest double.

## Main definitions

* `Literal.parse?`: splits the characters of a literal into its parts.
* `Literal.value`: the number that a literal denotes.
-/

namespace AppleOne.Json

/-- The parts of a number literal. The digits are values, most significant first. -/
structure Literal where
  negative : Bool
  whole : List Nat
  /-- The digits after the point; empty without a point. -/
  fraction : List Nat
  /-- Sign and digits of the exponent. -/
  exponent : Option (Bool × List Nat)
  deriving DecidableEq, Repr

namespace Literal

/-- The value of a decimal digit. -/
def digit? (c : Char) : Option Nat :=
  if c.isDigit then some (c.toNat - '0'.toNat) else none

/-- Splits off the leading digits. -/
def takeDigits : List Char → List Nat × List Char
  | [] => ([], [])
  | c :: rest =>
    match digit? c with
    | some d => let (digits, rest) := takeDigits rest; (d :: digits, rest)
    | none => ([], c :: rest)

/-- Splits off a fraction, which has a digit at least. -/
def takeFraction : List Char → Option (List Nat × List Char)
  | '.' :: rest =>
    match takeDigits rest with
    | ([], _) => none
    | (digits, rest) => some (digits, rest)
  | rest => some ([], rest)

/-- Splits off the sign of an exponent; true stands for minus. -/
def takeExponentSign : List Char → Bool × List Char
  | '+' :: rest => (false, rest)
  | '-' :: rest => (true, rest)
  | rest => (false, rest)

/-- Reads the exponent that ends a literal. -/
def endExponent : List Char → Option (Option (Bool × List Nat))
  | [] => some none
  | c :: rest =>
    if c = 'e' ∨ c = 'E' then
      let (negative, rest) := takeExponentSign rest
      match takeDigits rest with
      | ([], _) | (_, _ :: _) => none
      | (digits, []) => some (some (negative, digits))
    else none

/-- Whether a list of digits may stand before the point: it is not empty, and zero
begins no longer list. -/
def validWhole : List Nat → Bool
  | [] => false
  | [_] => true
  | first :: _ => first != 0

/-- Splits the characters of a literal into its parts. -/
def parse? (chars : List Char) : Option Literal := do
  let (negative, chars) := match chars with
    | '-' :: rest => (true, rest)
    | rest => (false, rest)
  let (whole, chars) := takeDigits chars
  guard (validWhole whole)
  let (fraction, chars) ← takeFraction chars
  let exponent ← endExponent chars
  return ⟨negative, whole, fraction, exponent⟩

/-- The largest significand. -/
def maxSignificand : Nat := UInt64.size - 1

/-- Appends digits to a significand for as long as it stays in range, and gives back
the digits that were left over. -/
def appendDigits (significand : Nat) : List Nat → Nat × List Nat
  | [] => (significand, [])
  | d :: rest =>
    if significand * 10 + d ≤ maxSignificand then appendDigits (significand * 10 + d) rest
    else (significand, d :: rest)

/-- The largest exponent that is computed with. -/
def maxExponent : Nat := 0x7FFFFFFF

/-- The value of an exponent, or nothing if it is too large to compute with. -/
def exponentValue? (digits : List Nat) : Option Nat :=
  let value := digits.foldl (fun value d => value * 10 + d) 0
  if value ≤ maxExponent then some value else none

/-- A power of ten as a double. -/
def powerOfTen (exponent : Nat) : Float :=
  Float.ofScientific 1 false exponent

/-- The largest power of ten among the doubles. -/
def maxPower : Nat := 308

/-- Divides by a power of ten, in steps that are themselves doubles. -/
def divideByPower (value : Float) (exponent : Nat) : Float :=
  if exponent ≤ maxPower then value / powerOfTen exponent
  else if value == 0 then value
  else divideByPower (value / powerOfTen maxPower) (exponent - maxPower)
termination_by exponent
decreasing_by simp only [maxPower] at *; omega

/-- A significand scaled by a power of ten, unless that is beyond the doubles. -/
def scale? (significand : Nat) (exponent : Int) : Option Float :=
  let value := significand.toUInt64.toFloat
  match exponent with
  | .ofNat up =>
    if up ≤ maxPower then
      let scaled := value * powerOfTen up
      if scaled.isInf then none else some scaled
    else if value == 0 then some value
    else none
  | .negSucc down => some (divideByPower value (down + 1))

/-- A double with a sign. -/
def signed (negative : Bool) (magnitude : Float) : Json :=
  .float (if negative then -magnitude else magnitude)

/-- The double that a literal denotes. -/
def float (literal : Literal) : Json :=
  let (whole, dropped) := appendDigits 0 literal.whole
  let (significand, ignored) := appendDigits whole literal.fraction
  let shift : Int := dropped.length - (literal.fraction.length - ignored.length : Nat)
  let scaled := match literal.exponent with
    | none => scale? significand shift
    | some (down, digits) =>
      match exponentValue? digits with
      | some power =>
        scale? significand (if down then shift - (power : Int) else shift + (power : Int))
      | none => if down || significand = 0 then some 0 else none
  match scaled with
  | some magnitude => signed literal.negative magnitude
  | none => .defect .numberOutOfRange

/-- The number that a literal denotes. -/
def value (literal : Literal) : Json :=
  match literal.fraction, literal.exponent with
  | [], none =>
    let magnitude : Nat := literal.whole.foldl (fun value d => value * 10 + d) 0
    if literal.negative then
      if 0 < magnitude ∧ magnitude ≤ 0x8000000000000000 then .int (-magnitude) else literal.float
    else if magnitude ≤ maxSignificand then .int magnitude
    else literal.float
  | _, _ => literal.float

end Literal

end AppleOne.Json
