/-!
# Hexadecimal text

Addresses and bytes are shown in base sixteen with capital digits. A byte always
takes two digits and a word four; other numbers take as many as they need, padded
with zeros up to a given width.
-/

namespace AppleOne.Text

/-- The capital base-sixteen digit of a number below sixteen. -/
def hexDigit (n : Nat) : Char :=
  (Nat.digitChar n).toUpper

/-- The two digits of a byte. -/
def hexByteDigits (b : UInt8) : List Char :=
  [hexDigit (b.toNat / 16), hexDigit (b.toNat % 16)]

/-- The four digits of a word. -/
def hexWordDigits (w : UInt16) : List Char :=
  hexByteDigits (w >>> 8).toUInt8 ++ hexByteDigits w.toUInt8

/-- A byte as two digits. -/
def hexByte (b : UInt8) : String :=
  String.ofList (hexByteDigits b)

/-- A word as four digits. -/
def hexWord (w : UInt16) : String :=
  String.ofList (hexWordDigits w)

/-- Any number, padded with zeros to at least `width` digits. -/
def hexNat (width n : Nat) : String :=
  String.ofList (((Nat.toDigits 16 n).map Char.toUpper).leftpad width '0')

end AppleOne.Text
