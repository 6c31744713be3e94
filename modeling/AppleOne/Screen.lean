/-!
# The screen

The display is a terminal of 24 rows of 40 columns that prints at a cursor and, at
the end of the last row, moves all rows up by one. It shows the 64 characters from
blank to underline; small letters are printed as capitals. If rubout is enabled, the
rubout and backspace codes take back the last character instead. Every visible change
raises the version.

## Main definitions

* `Screen`, and `Screen.write`, which takes one character code.
* `Screen.text`: what is on the screen.
* `Screen.state`, `Screen.restore`: what a saved machine keeps of it.
-/

namespace AppleOne

namespace Screen

/-- The number of columns. -/
abbrev columns : Nat := 40

/-- The number of rows. -/
abbrev rows : Nat := 24

/-- A row of character codes. -/
abbrev Row := Vector UInt8 columns

/-- The code of a blank cell. -/
def blank : UInt8 := 0x20

/-- A row of blanks. -/
def blankRow : Row := Vector.replicate columns blank

end Screen

/-- The terminal. -/
structure Screen where
  cells : Vector Screen.Row Screen.rows
  row : Fin Screen.rows
  column : Fin Screen.columns
  /-- Whether rubout and backspace take back a character. -/
  rubout : Bool
  /-- The number of changes, modulo its range. -/
  version : UInt64
  deriving DecidableEq, Repr

namespace Screen

/-- A blank screen with the cursor in the upper left corner. -/
def empty (rubout : Bool) : Screen where
  cells := Vector.replicate rows blankRow
  row := 0
  column := 0
  rubout := rubout
  version := 0

/-- The code of carriage return. -/
def returnCode : UInt8 := 0x0D

/-- The code of backspace. -/
def backspaceCode : UInt8 := 0x08

/-- The code of rubout. -/
def ruboutCode : UInt8 := 0x5F

/-- All rows one up, with a blank row at the bottom. -/
def scroll (cells : Vector Row rows) : Vector Row rows :=
  Vector.ofFn fun i => if h : i.val + 1 < rows then cells[i.val + 1] else blankRow

/-- Moves the cursor to the beginning of the next row, which may have to be made. -/
def newLine (screen : Screen) : Screen :=
  if h : screen.row.val + 1 < rows then
    { screen with row := ⟨screen.row.val + 1, h⟩, column := 0 }
  else { screen with cells := scroll screen.cells, column := 0 }

/-- Replaces the cell under the cursor. -/
def setCell (screen : Screen) (code : UInt8) : Screen :=
  let row := screen.cells[screen.row].set screen.column.val code
  { screen with cells := screen.cells.set screen.row.val row }

/-- Prints a character at the cursor and moves on. -/
def put (screen : Screen) (code : UInt8) : Screen :=
  let screen := screen.setCell code
  if h : screen.column.val + 1 < columns then
    { screen with column := ⟨screen.column.val + 1, h⟩ }
  else screen.newLine

/-- The cursor one cell back in reading order, if it is not in the first cell. -/
def back? (screen : Screen) : Option Screen :=
  if 0 < screen.column.val then
    some { screen with column := ⟨screen.column.val - 1, by omega⟩ }
  else if 0 < screen.row.val then
    some { screen with
      row := ⟨screen.row.val - 1, by omega⟩
      column := ⟨columns - 1, by decide⟩ }
  else none

/-- Takes back the last character. -/
def erase? (screen : Screen) : Option Screen :=
  screen.back?.map (·.setCell blank)

/-- What a character code does to the screen, if it does anything. -/
def print? (screen : Screen) (code : UInt8) : Option Screen :=
  if code = returnCode then some screen.newLine
  else if screen.rubout && (code == ruboutCode || code == backspaceCode) then screen.erase?
  else if 0x20 ≤ code ∧ code ≤ 0x5F then some (screen.put code)
  else if 0x60 ≤ code ∧ code ≤ 0x7E then some (screen.put (code - 0x20))
  else none

/-- The next version of the screen. -/
def touch (screen : Screen) : Screen :=
  { screen with version := screen.version + 1 }

/-- Takes a character code, and tells whether the screen changed. -/
def write (screen : Screen) (code : UInt8) : Bool × Screen :=
  match screen.print? code with
  | some printed => (true, printed.touch)
  | none => (false, screen)

/-- Blanks the screen. -/
def clear (screen : Screen) : Screen :=
  { screen with cells := Vector.replicate rows blankRow, row := 0, column := 0 }.touch

/-- Chooses whether rubout and backspace take back a character. -/
def setRubout (screen : Screen) (enabled : Bool) : Screen :=
  { screen with rubout := enabled }

/-- The character of a code. -/
def charOf (code : UInt8) : Char := Char.ofNat code.toNat

/-- A row as a string of forty characters. -/
def rowString (row : Row) : String :=
  String.ofList (row.toList.map charOf)

/-- The text of a row by its number. -/
def rowString? (screen : Screen) (index : Nat) : Option String :=
  screen.cells[index]?.map rowString

/-- A row without the blanks at its end. -/
def trimmedRow (row : Row) : String :=
  String.ofList ((row.toList.reverse.dropWhile (· == blank)).reverse.map charOf)

/-- The text on the screen, a line for every row, without blanks at the ends of lines. -/
def text (screen : Screen) : String :=
  "\n".intercalate (screen.cells.toList.map trimmedRow)

/-- What is saved of a screen. A document may hold anything here: other numbers of
rows, rows of other lengths, a cursor elsewhere. -/
structure State where
  rows : List String
  cursorRow : Nat
  cursorColumn : Nat
  version : UInt64
  deriving DecidableEq, Repr

/-- The present state of the screen. -/
def state (screen : Screen) : State where
  rows := screen.cells.toList.map rowString
  cursorRow := screen.row
  cursorColumn := screen.column
  version := screen.version

/-- The code of a character, blank unless it is printable ASCII. -/
def codeOf (c : Char) : UInt8 :=
  if 0x20 ≤ c.toNat ∧ c.toNat ≤ 0x7E then c.toNat.toUInt8 else blank

/-- A row filled from the characters of a text, as far as they go. -/
def rowOf (text : List Char) : Row :=
  Vector.ofFn fun i => (text[i.val]?).elim blank codeOf

/-- The nearest number below a bound. -/
def clamp {n : Nat} (positive : 0 < n) (i : Nat) : Fin n :=
  if h : i < n then ⟨i, h⟩ else ⟨n - 1, Nat.sub_lt positive Nat.one_pos⟩

/-- The screen of a saved state, cut or filled up with blanks to its size. The version
goes beyond that of the screen and that of the state. -/
def restore (screen : Screen) (state : State) : Screen :=
  { screen with
    cells := Vector.ofFn fun i => (state.rows[i.val]?).elim blankRow fun text => rowOf text.toList
    row := clamp (by decide) state.cursorRow
    column := clamp (by decide) state.cursorColumn
    version := max screen.version state.version + 1 }

end Screen

end AppleOne
