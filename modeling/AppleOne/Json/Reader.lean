import AppleOne.Json.Number

/-!
# Reading JSON text

A text is read in one pass by two machines. The `Scanner` takes characters and gives
out tokens; the `Builder` takes tokens and holds the containers that are still open
on a stack. Each has a step function, so reading is a fold over the characters and
ends with them.

The grammar is that of RFC 8259 and nothing besides: no comments, no trailing commas,
no byte order mark, and only four kinds of blank.

## Main definitions

* `Json.read?`: the value of a text, defects included.
* `Json.parse?`: the canonical value of a text without defects.
-/

namespace AppleOne.Json

/-- The smallest meaningful parts of a text. -/
inductive Token where
  | openArray
  | closeArray
  | openObject
  | closeObject
  | comma
  | colon
  | null
  | bool (value : Bool)
  | number (literal : Literal)
  /-- A string; nothing is left of one with half of a surrogate pair. -/
  | string (value : Option String)
  deriving DecidableEq, Repr

/-- The nesting of brackets that a value may have. -/
def maxDepth : Nat := 127

/-- The part of a string read so far, newest character first. -/
structure StringBody where
  chars : List Char := []
  /-- The first half of a surrogate pair that waits for the second. -/
  pending : Option Nat := none
  /-- Whether some half of a pair was left alone. -/
  broken : Bool := false
  deriving DecidableEq, Repr

namespace StringBody

/-- Gives up waiting for the second half of a pair. -/
def settle (body : StringBody) : StringBody :=
  if body.pending.isSome then { body with pending := none, broken := true } else body

/-- Appends a character. -/
def push (body : StringBody) (c : Char) : StringBody :=
  let body := body.settle
  { body with chars := c :: body.chars }

/-- Appends a sixteen-bit unit, two of which may make up a character. -/
def pushUnit (body : StringBody) (unit : Nat) : StringBody :=
  if 0xD800 ≤ unit ∧ unit ≤ 0xDBFF then { body.settle with pending := some unit }
  else if 0xDC00 ≤ unit ∧ unit ≤ 0xDFFF then
    match body.pending with
    | some high =>
      let c := Char.ofNat (0x10000 + (high - 0xD800) * 0x400 + (unit - 0xDC00))
      { body with chars := c :: body.chars, pending := none }
    | none => { body with broken := true }
  else body.push (Char.ofNat unit)

/-- The string that was read. -/
def finish (body : StringBody) : Token :=
  let body := body.settle
  .string (if body.broken then none else some (String.ofList body.chars.reverse))

end StringBody

/-- Where the scanner stands. Letters and literals are kept newest first. -/
inductive Scanner where
  | between
  | inWord (letters : List Char)
  | inNumber (chars : List Char)
  | inString (body : StringBody)
  /-- After a backslash. -/
  | inEscape (body : StringBody)
  /-- In the four digits of a unit. -/
  | inUnit (body : StringBody) (value digits : Nat)
  deriving DecidableEq, Repr

namespace Scanner

/-- The token of a word. -/
def wordToken? (letters : List Char) : Option Token :=
  match String.ofList letters.reverse with
  | "null" => some .null
  | "true" => some (.bool true)
  | "false" => some (.bool false)
  | _ => none

/-- The token of a number. -/
def numberToken? (chars : List Char) : Option Token :=
  (Literal.parse? chars.reverse).map .number

/-- The blanks of the grammar. -/
def isBlank (c : Char) : Bool :=
  c == ' ' || c == '\n' || c == '\t' || c == '\r'

/-- The characters of number literals. -/
def isNumberChar (c : Char) : Bool :=
  c.isDigit || c == '-' || c == '+' || c == '.' || c == 'e' || c == 'E'

/-- The character that an escape of one letter stands for. -/
def simpleEscape? : Char → Option Char
  | '"' => some '"'
  | '\\' => some '\\'
  | '/' => some '/'
  | 'b' => some '\x08'
  | 'f' => some '\x0c'
  | 'n' => some '\n'
  | 'r' => some '\r'
  | 't' => some '\t'
  | _ => none

/-- The value of a base-sixteen digit. -/
def hexDigit? (c : Char) : Option Nat :=
  if c.isDigit then some (c.toNat - '0'.toNat)
  else if 'a' ≤ c ∧ c ≤ 'f' then some (c.toNat - 'a'.toNat + 10)
  else if 'A' ≤ c ∧ c ≤ 'F' then some (c.toNat - 'A'.toNat + 10)
  else none

/-- Takes a character between tokens. -/
def start (c : Char) : Option (List Token × Scanner) :=
  match c with
  | '[' => some ([.openArray], between)
  | ']' => some ([.closeArray], between)
  | '\x7b' => some ([.openObject], between)
  | '\x7d' => some ([.closeObject], between)
  | ',' => some ([.comma], between)
  | ':' => some ([.colon], between)
  | '"' => some ([], inString {})
  | _ =>
    if isBlank c then some ([], between)
    else if c == '-' || c.isDigit then some ([], inNumber [c])
    else if c.isLower then some ([], inWord [c])
    else none

/-- Puts a finished token in front of what the next character starts. -/
def startAfter (token : Token) (c : Char) : Option (List Token × Scanner) :=
  (start c).map fun (tokens, scanner) => (token :: tokens, scanner)

/-- Takes one character, and gives back the tokens that it completes. -/
def step (scanner : Scanner) (c : Char) : Option (List Token × Scanner) :=
  match scanner with
  | between => start c
  | inWord letters =>
    if c.isLower then some ([], inWord (c :: letters))
    else do startAfter (← wordToken? letters) c
  | inNumber chars =>
    if isNumberChar c then some ([], inNumber (c :: chars))
    else do startAfter (← numberToken? chars) c
  | inString body =>
    if c = '"' then some ([body.finish], between)
    else if c = '\\' then some ([], inEscape body)
    else if c < ' ' then none
    else some ([], inString (body.push c))
  | inEscape body =>
    if c = 'u' then some ([], inUnit body 0 0)
    else (simpleEscape? c).map fun c => ([], inString (body.push c))
  | inUnit body value digits => do
    let value := value * 16 + (← hexDigit? c)
    if digits = 3 then return ([], inString (body.pushUnit value))
    else return ([], inUnit body value (digits + 1))

/-- The tokens that are complete at the end of the text. -/
def finish : Scanner → Option (List Token)
  | between => some []
  | inWord letters => (wordToken? letters).map ([·])
  | inNumber chars => (numberToken? chars).map ([·])
  | _ => none

end Scanner

/-- A container that is still open, its contents newest first. -/
inductive Frame where
  | array (items : List Json)
  /-- An object that waits for the value of `key`. -/
  | object (members : List (String × Json)) (broken : Bool) (key : Option String)

/-- What the builder waits for. -/
inductive Builder where
  | needValue (stack : List Frame)
  /-- A value, or the end of an array that is empty so far. -/
  | needFirstItem (stack : List Frame)
  /-- A key, or the end of an object that is empty so far. -/
  | needFirstKey (stack : List Frame)
  | needKey (stack : List Frame) (members : List (String × Json)) (broken : Bool)
  | needColon (stack : List Frame) (members : List (String × Json)) (broken : Bool)
      (key : Option String)
  /-- A comma or the end of the innermost container. -/
  | afterItem (stack : List Frame) (items : List Json)
  | afterMember (stack : List Frame) (members : List (String × Json)) (broken : Bool)
  | finished (value : Json)

namespace Builder

/-- Hands a finished value to the innermost container. -/
def deliver (value : Json) : List Frame → Builder
  | [] => finished value
  | .array items :: stack => afterItem stack (value :: items)
  | .object members broken key :: stack =>
    match key with
    | some key => afterMember stack ((key, value) :: members) broken
    | none => afterMember stack members true

/-- Whether a container is too deep, which is so if `maxDepth` others are open around
it. -/
def tooDeep (stack : List Frame) : Bool :=
  !(stack.drop (maxDepth - 1)).isEmpty

/-- Hands on a container. -/
def deliverContainer (value : Json) (stack : List Frame) : Builder :=
  deliver (if tooDeep stack then .defect .tooDeep else value) stack

/-- Closes an array. -/
def closeArray (stack : List Frame) (items : List Json) : Builder :=
  deliverContainer (.array items.reverse) stack

/-- Closes an object. One with a broken key has no value. -/
def closeObject (stack : List Frame) (members : List (String × Json)) (broken : Bool) :
    Builder :=
  deliverContainer (if broken then .defect .loneSurrogate else .object members.reverse) stack

/-- Takes the first token of a value. -/
def startValue (stack : List Frame) : Token → Option Builder
  | .null => some (deliver .null stack)
  | .bool value => some (deliver (.bool value) stack)
  | .number literal => some (deliver literal.value stack)
  | .string (some value) => some (deliver (.string value) stack)
  | .string none => some (deliver (.defect .loneSurrogate) stack)
  | .openArray => some (needFirstItem stack)
  | .openObject => some (needFirstKey stack)
  | _ => none

/-- Takes one token. -/
def step (builder : Builder) (token : Token) : Option Builder :=
  match builder with
  | needValue stack => startValue stack token
  | needFirstItem stack =>
    match token with
    | .closeArray => some (closeArray stack [])
    | _ => startValue (.array [] :: stack) token
  | needFirstKey stack =>
    match token with
    | .closeObject => some (closeObject stack [] false)
    | .string name => some (needColon stack [] false name)
    | _ => none
  | needKey stack members broken =>
    match token with
    | .string name => some (needColon stack members broken name)
    | _ => none
  | needColon stack members broken name =>
    match token with
    | .colon => some (needValue (.object members broken name :: stack))
    | _ => none
  | afterItem stack items =>
    match token with
    | .comma => some (needValue (.array items :: stack))
    | .closeArray => some (closeArray stack items)
    | _ => none
  | afterMember stack members broken =>
    match token with
    | .comma => some (needKey stack members broken)
    | .closeObject => some (closeObject stack members broken)
    | _ => none
  | finished _ => none

/-- Takes a list of tokens. -/
def run (builder : Builder) : List Token → Option Builder
  | [] => some builder
  | token :: rest => do (← builder.step token).run rest

end Builder

/-- The two machines, one behind the other. -/
structure Reader where
  scanner : Scanner
  builder : Builder

namespace Reader

/-- The state before the first character. -/
def initial : Reader := ⟨.between, .needValue []⟩

/-- Takes one character. -/
def step (reader : Reader) (c : Char) : Option Reader := do
  let (tokens, scanner) ← reader.scanner.step c
  let builder ← reader.builder.run tokens
  return ⟨scanner, builder⟩

/-- Takes a list of characters. -/
def run (reader : Reader) : List Char → Option Reader
  | [] => some reader
  | c :: rest =>
    match reader.step c with
    | some reader => reader.run rest
    | none => none

/-- The value that is complete at the end of the text. -/
def finish (reader : Reader) : Option Json := do
  match ← reader.builder.run (← reader.scanner.finish) with
  | .finished value => some value
  | _ => none

end Reader

/-- The value of a text, defects included. -/
def read? (text : String) : Option Json := do
  (← Reader.initial.run text.toList).finish

/-- The canonical value of a text that has no defect. -/
def parse? (text : String) : Option Json := do
  let value ← read? text
  guard value.sound
  return value.canonical

end AppleOne.Json
