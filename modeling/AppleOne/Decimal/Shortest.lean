/-!
# Shortest decimals

A double is one point of a grid of binary fractions, and a decimal denotes it if the
double is the nearest point of that grid. Of all decimals that denote a double the
shortest is the one with the fewest significant digits; of several such the nearest
is taken, and of two equally near the even one.

All comparisons are made on natural numbers: a double is `significand * 2 ^ exponent`,
and the decimals that denote it fill an interval around it whose ends lie halfway to
its neighbours. The ends belong to the interval when the significand is even. Going
through the powers of ten from the largest down, the first of which a multiple lies in
the interval has the shortest decimal among its multiples.

## Main definitions

* `Decimal.Binary.ofBits`: a double as a multiple of a power of two.
* `Decimal.Binary.shortest`: its shortest decimal.
* `Decimal.text`: a decimal in writing.
-/

namespace AppleOne

/-- A decimal number: `digits` times a power of ten. -/
structure Decimal where
  digits : Nat
  exponent : Int
  deriving DecidableEq, Repr

namespace Decimal

/-- A positive double, as a multiple of a power of two. -/
structure Binary where
  significand : Nat
  exponent : Int
  /-- Whether the next smaller double is only half as far away as the next larger. -/
  narrowBelow : Bool
  deriving DecidableEq, Repr

/-- A positive rational number. -/
structure Ratio where
  num : Nat
  den : Nat
  deriving DecidableEq, Repr

namespace Ratio

/-- A power of a base. -/
def power (base : Nat) : Int → Ratio
  | .ofNat n => ⟨base.pow n, 1⟩
  | .negSucc n => ⟨1, base.pow (n + 1)⟩

/-- A multiple of a number. -/
def times (n : Nat) (r : Ratio) : Ratio := ⟨n * r.num, r.den⟩

/-- Comparison by cross multiplication. -/
def le (r s : Ratio) : Bool := r.num * s.den ≤ s.num * r.den

/-- Strict comparison. -/
def lt (r s : Ratio) : Bool := r.num * s.den < s.num * r.den

/-- The whole part of a quotient. -/
def quotient (r s : Ratio) : Nat := r.num * s.den / (r.den * s.num)

end Ratio

namespace Binary

/-- The double of the given bits, without its sign. -/
def ofBits (bits : UInt64) : Binary :=
  let field := (bits >>> 52 &&& 0x7FF).toNat
  let fraction := (bits &&& 0xFFFFFFFFFFFFF).toNat
  if field = 0 then ⟨fraction, -1074, false⟩
  else ⟨fraction + 0x10000000000000, (field : Int) - 1075, fraction = 0 && 1 < field⟩

/-- A quarter of the distance to the next larger double. -/
def quarter (b : Binary) : Ratio := .power 2 (b.exponent - 2)

/-- The double itself. -/
def value (b : Binary) : Ratio := b.quarter.times (4 * b.significand)

/-- The lower end of the interval that the double stands for. -/
def lower (b : Binary) : Ratio :=
  b.quarter.times (4 * b.significand - if b.narrowBelow then 1 else 2)

/-- The upper end of the interval. -/
def upper (b : Binary) : Ratio := b.quarter.times (4 * b.significand + 2)

/-- Whether a number denotes the double. -/
def accepts (b : Binary) (r : Ratio) : Bool :=
  if b.significand % 2 = 0 then b.lower.le r && r.le b.upper
  else b.lower.lt r && r.lt b.upper

/-- The multiple of a power of ten nearest to the double among those that denote it. -/
def multiple? (b : Binary) (exponent : Int) : Option Nat :=
  let unit := Ratio.power 10 exponent
  let below := b.value.quotient unit
  let above := below + 1
  match b.accepts (unit.times below), b.accepts (unit.times above) with
  | false, false => none
  | true, false => some below
  | false, true => some above
  | true, true =>
    let twice := b.value.times 2
    let middle := unit.times (below + above)
    if twice.lt middle || (!middle.lt twice && below % 2 = 0) then some below else some above

/-- Tries a number of powers of ten from the given one down. -/
def search (b : Binary) (exponent : Int) : Nat → Decimal
  | 0 => ⟨b.significand, 0⟩
  | tries + 1 =>
    match b.multiple? exponent with
    | some digits => ⟨digits, exponent⟩
    | none => b.search (exponent - 1) tries

/-- The largest power of ten among the doubles. -/
def maxExponent : Int := 308

/-- The powers of ten to try: from the largest to those finer than the smallest double. -/
def tries : Nat := 650

/-- The shortest decimal that denotes the double. -/
def shortest (b : Binary) : Decimal := b.search maxExponent tries

end Binary

/-- Decimals from this power of ten up are written with an exponent. -/
def positionalBelow : Int := 16

/-- Decimals below this power of ten are written with an exponent. -/
def positionalFrom : Int := -5

/-- Digits with a point after the first, if there are more. -/
def pointed : List Char → List Char
  | first :: second :: rest => first :: '.' :: second :: rest
  | digits => digits

/-- The decimal in writing, with a point or an exponent in any case. -/
def text (d : Decimal) : String :=
  let digits := Nat.toDigits 10 d.digits
  let leading : Int := digits.length - 1 + d.exponent
  if positionalFrom ≤ leading ∧ leading < positionalBelow then
    match d.exponent with
    | .ofNat zeros => String.ofList (digits ++ List.replicate zeros '0' ++ ['.', '0'])
    | .negSucc n =>
      let padded := digits.leftpad (n + 2) '0'
      let whole := padded.length - (n + 1)
      String.ofList (padded.take whole ++ '.' :: padded.drop whole)
  else
    let sign := if leading < 0 then '-' else '+'
    String.ofList (pointed digits ++ 'e' :: sign :: Nat.toDigits 10 leading.natAbs)

/-- A finite double in writing. -/
def floatText (x : Float) : String :=
  let bits := x.toBits
  let sign := if bits >>> 63 == 0 then "" else "-"
  let binary := Binary.ofBits bits
  if binary.significand = 0 then sign ++ "0.0" else sign ++ binary.shortest.text

end Decimal

end AppleOne
