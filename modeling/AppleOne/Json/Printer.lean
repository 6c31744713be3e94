import AppleOne.Decimal.Shortest
import AppleOne.Json.Basic

/-!
# Writing JSON text

Values are written without blanks. In strings the quote, the backslash and the
control characters are escaped, with a letter where there is one; everything else
stands for itself. A defect has no text of its own and is written as null.

## Main definitions

* `Json.render`: the text of a value.
-/

namespace AppleOne.Json

/-- The base-sixteen digit of a number below sixteen, in small letters. -/
def unitDigit (n : Nat) : Char := Nat.digitChar n

/-- A character as it is written inside a string. -/
def escapeChar (c : Char) : List Char :=
  match c with
  | '"' => ['\\', '"']
  | '\\' => ['\\', '\\']
  | '\x08' => ['\\', 'b']
  | '\x0c' => ['\\', 'f']
  | '\n' => ['\\', 'n']
  | '\r' => ['\\', 'r']
  | '\t' => ['\\', 't']
  | _ =>
    if c < ' ' then ['\\', 'u', '0', '0', unitDigit (c.toNat / 16), unitDigit (c.toNat % 16)]
    else [c]

/-- A string in quotes. -/
def quote (s : String) : String :=
  String.ofList ('"' :: s.toList.flatMap escapeChar ++ ['"'])

mutual

/-- Appends the text of a value. -/
def renderTo (out : String) : Json → String
  | .null | .defect _ => out ++ "null"
  | .bool value => out ++ if value then "true" else "false"
  | .int value => out ++ toString value
  | .float value => out ++ Decimal.floatText value
  | .string value => out ++ quote value
  | .array [] => out ++ "[]"
  | .array (item :: rest) => (renderItems (renderTo (out.push '[') item) rest).push ']'
  | .object [] => (out.push '\x7b').push '\x7d'
  | .object ((key, value) :: rest) =>
    (renderMembers (renderTo ((out.push '\x7b' ++ quote key).push ':') value) rest).push '\x7d'

/-- Appends further items of an array. -/
def renderItems (out : String) : List Json → String
  | [] => out
  | item :: rest => renderItems (renderTo (out.push ',') item) rest

/-- Appends further members of an object. -/
def renderMembers (out : String) : List (String × Json) → String
  | [] => out
  | (key, value) :: rest =>
    renderMembers (renderTo ((out.push ',' ++ quote key).push ':') value) rest

end

/-- The text of a value. -/
def render (value : Json) : String := renderTo "" value

end AppleOne.Json
