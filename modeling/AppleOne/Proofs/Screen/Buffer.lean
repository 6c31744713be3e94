import AppleOne.Proofs.Screen.Printable
import Mathlib.Data.List.Rotate

/-!
# Staying on the screen

A screen is twenty-four rows of forty cells with a cursor on one of them, whatever is done to
it. That its type says so is owed to the operations, all of which would have to work in plain
storage as well, where nothing keeps a row at its length or the cursor inside, and where an
access beyond an end has no result. In such a buffer the same operations never miss: they find
the rows and cells that they ask for and end with what the screen ends with, also if anything at
all was loaded before.

## Main definitions

* `Screen.Edit`: what can be done to a screen; `Screen.edited`: the screen after it.
* `Buffer`: a screen in plain storage, with `Buffer.write?` and `Buffer.restore`.

## Main results

* `Screen.setCell?_buffer`, `Screen.newLine?_buffer`, `Screen.write?_buffer`: no access misses.
* `Screen.all_edited`: what cells hold after any edits.
* `Screen.stays_on_screen`: what holds after any edits.
-/

namespace AppleOne

namespace Screen

/-- What can be done to a screen. A state that is restored may be any. -/
inductive Edit where
  | write (code : UInt8)
  | clear
  | setRubout (enabled : Bool)
  | restore (state : State)
  deriving DecidableEq, Repr

/-- The screen after an edit. -/
def edit (screen : Screen) : Edit → Screen
  | .write code => (screen.write code).2
  | .clear => screen.clear
  | .setRubout enabled => screen.setRubout enabled
  | .restore state => screen.restore state

/-- The screen after several edits. -/
def edited (screen : Screen) (edits : List Edit) : Screen := edits.foldl edit screen

end Screen

open Screen (rows columns blank glyph? Edit)

/-- A screen in plain storage, in which accesses can miss. -/
@[ext]
structure Buffer where
  cells : List (List UInt8)
  row : Nat
  column : Nat
  rubout : Bool
  version : UInt64
  deriving DecidableEq, Repr

namespace Buffer

/-- A line of blanks. -/
def blankLine : List UInt8 := List.replicate columns blank

/-- A blank buffer with the cursor in the upper left corner. -/
def empty (rubout : Bool) : Buffer := ⟨List.replicate rows blankLine, 0, 0, rubout, 0⟩

/-- Replaces an entry of a list, if it is there. -/
def replace? {α : Type} (list : List α) (index : Nat) (entry : α) : Option (List α) :=
  if index < list.length then some (list.set index entry) else none

/-- Replaces the cell under the cursor, if it is there. -/
def setCell? (buffer : Buffer) (code : UInt8) : Option Buffer := do
  let line ← buffer.cells[buffer.row]?
  let line ← replace? line buffer.column code
  let cells ← replace? buffer.cells buffer.row line
  return { buffer with cells }

/-- Moves the cursor to the next row, or all rows up and a blank one to where the last is. -/
def newLine? (buffer : Buffer) : Option Buffer :=
  if buffer.row + 1 < rows then some { buffer with row := buffer.row + 1, column := 0 }
  else do
    let cells ← replace? (buffer.cells.rotate 1) (rows - 1) blankLine
    return { buffer with cells, column := 0 }

/-- Prints a character. -/
def put? (buffer : Buffer) (code : UInt8) : Option Buffer := do
  let buffer ← buffer.setCell? code
  let buffer := { buffer with column := buffer.column + 1 }
  if buffer.column = columns then buffer.newLine? else return buffer

/-- The cursor one cell back in reading order, if it is not in the first cell. -/
def back? (buffer : Buffer) : Option Buffer :=
  if 0 < buffer.column then some { buffer with column := buffer.column - 1 }
  else if 0 < buffer.row then some { buffer with row := buffer.row - 1, column := columns - 1 }
  else none

/-- Takes back the last character, and tells whether there was one. -/
def erase? (buffer : Buffer) : Option (Bool × Buffer) :=
  match buffer.back? with
  | some back => (back.setCell? blank).map (true, ·)
  | none => some (false, buffer)

/-- What a character code does to the buffer, and whether it changes. -/
def print? (buffer : Buffer) (code : UInt8) : Option (Bool × Buffer) :=
  if code = Screen.returnCode then buffer.newLine?.map (true, ·)
  else if buffer.rubout = true ∧ (code = Screen.ruboutCode ∨ code = Screen.backspaceCode) then
    buffer.erase?
  else match glyph? code with
    | some glyph => (buffer.put? glyph).map (true, ·)
    | none => some (false, buffer)

/-- Takes a character code, and tells whether the buffer changed. -/
def write? (buffer : Buffer) (code : UInt8) : Option (Bool × Buffer) := do
  let (changed, written) ← buffer.print? code
  return (changed, if changed then { written with version := written.version + 1 } else written)

/-- Blanks all rows that there are. -/
def clear (buffer : Buffer) : Buffer :=
  { buffer with
    cells := buffer.cells.map fun _ => blankLine
    row := 0
    column := 0
    version := buffer.version + 1 }

/-- A line filled from a text, as far as it goes. -/
def lineOf (text : Option String) : List UInt8 :=
  (((text.elim [] (·.toList)).map Screen.codeOf).take columns).rightpad columns blank

/-- Fills all rows that there are. -/
def restore (buffer : Buffer) (state : Screen.State) : Buffer :=
  { buffer with
    cells := buffer.cells.mapIdx fun index _ => lineOf state.rows[index]?
    row := min state.cursorRow (rows - 1)
    column := min state.cursorColumn (columns - 1)
    version := max buffer.version state.version + 1 }

/-- The buffer after an edit, if no access misses. -/
def edit? (buffer : Buffer) : Edit → Option Buffer
  | .write code => (buffer.write? code).map (·.2)
  | .clear => some buffer.clear
  | .setRubout enabled => some { buffer with rubout := enabled }
  | .restore state => some (buffer.restore state)

/-- The buffer after several edits, if no access misses. -/
def edited? (buffer : Buffer) (edits : List Edit) : Option Buffer :=
  edits.foldlM edit? buffer

end Buffer

namespace Screen

/-- The screen in plain storage. -/
def buffer (screen : Screen) : Buffer where
  cells := screen.cells.toList.map (·.toList)
  row := screen.row
  column := screen.column
  rubout := screen.rubout
  version := screen.version

variable (screen : Screen)

/-! ## No access misses -/

theorem length_buffer_cells : screen.buffer.cells.length = rows := by
  simp [buffer]

theorem replace?_of_lt {α : Type} {list : List α} {index : Nat} (h : index < list.length)
    (entry : α) : Buffer.replace? list index entry = some (list.set index entry) :=
  if_pos h

/-- The cell under the cursor is there. -/
theorem setCell?_buffer (code : UInt8) :
    screen.buffer.setCell? code = some (screen.setCell code).buffer := by
  have hline : screen.buffer.cells[screen.buffer.row]? = some screen.cells[screen.row].toList := by
    simp [buffer]
  have hcolumn : screen.buffer.column < screen.cells[screen.row].toList.length := by
    simp [buffer]
  have hrow : screen.buffer.row < screen.buffer.cells.length := by
    rw [length_buffer_cells]
    exact screen.row.isLt
  unfold Buffer.setCell?
  simp only [hline, replace?_of_lt hcolumn, replace?_of_lt hrow, Option.bind_eq_bind,
    Option.bind_some]
  simp only [buffer, setCell, Vector.toList_set, List.map_set]
  rfl

/-- Moving all rows up is turning them round and blanking the last one. -/
theorem toList_scroll (cells : Vector Row rows) :
    (scroll cells).toList.map (·.toList) =
      ((cells.toList.map (·.toList)).rotate 1).set (rows - 1) Buffer.blankLine := by
  refine List.ext_getElem? fun row => ?_
  by_cases hrow : row < rows
  · simp only [List.getElem?_map, Vector.getElem?_toList, scroll, Vector.getElem?_ofFn, hrow,
      dif_pos, Option.map_some, List.getElem?_set, List.length_rotate, List.length_map,
      Vector.length_toList]
    by_cases hlast : row + 1 < rows
    · have hne : rows - 1 ≠ row := by omega
      rw [if_neg hne, List.getElem?_rotate (by simpa using hrow), List.length_map,
        Vector.length_toList, Nat.mod_eq_of_lt hlast]
      simp [hlast]
    · have heq : rows - 1 = row := by omega
      simp only [heq, if_true, hrow, hlast, dif_neg, not_false_eq_true, blankRow,
        Vector.toList_replicate, Buffer.blankLine]
  · rw [List.getElem?_eq_none (by simpa using hrow), List.getElem?_eq_none (by simpa using hrow)]

/-- Whatever the column, the last row is there. -/
theorem newLine?_buffer (column : Nat) :
    { screen.buffer with column }.newLine? = some screen.newLine.buffer := by
  have hlast : rows - 1 < (screen.buffer.cells.rotate 1).length := by
    rw [List.length_rotate, length_buffer_cells]
    decide
  unfold Buffer.newLine? newLine
  by_cases h : screen.row.val + 1 < rows
  · have hrow : screen.buffer.row + 1 < rows := h
    rw [dif_pos h, if_pos hrow]
    rfl
  · have hrow : ¬ screen.buffer.row + 1 < rows := h
    rw [dif_neg h, if_neg hrow, replace?_of_lt hlast, Option.bind_eq_bind, Option.bind_some]
    simp only [buffer, toList_scroll]
    rfl

theorem put?_buffer (code : UInt8) :
    screen.buffer.put? code = some (screen.put code).buffer := by
  unfold Buffer.put? put
  rw [setCell?_buffer, Option.bind_eq_bind, Option.bind_some]
  simp only
  split_ifs with hend hlt hlt
  · exact absurd hend (Nat.ne_of_lt hlt)
  · exact newLine?_buffer _ _
  · rfl
  · exact absurd (Nat.le_antisymm (screen.setCell code).column.isLt (Nat.not_lt.mp hlt)) hend

theorem back?_buffer : screen.buffer.back? = screen.back?.map buffer := by
  unfold Buffer.back? back?
  have hcolumn : screen.buffer.column = screen.column.val := rfl
  have hrow : screen.buffer.row = screen.row.val := rfl
  rw [hcolumn, hrow]
  split_ifs <;> rfl

theorem erase?_buffer :
    screen.buffer.erase? =
      some (screen.erase?.elim (false, screen.buffer) fun erased => (true, erased.buffer)) := by
  unfold Buffer.erase? erase?
  rw [back?_buffer]
  cases screen.back? with
  | none => rfl
  | some back =>
    rw [Option.map_some, Option.map_some, Option.elim_some]
    simp only
    rw [setCell?_buffer, Option.map_some]

/-- Writing finds all cells that it asks for. -/
theorem write?_buffer (code : UInt8) :
    screen.buffer.write? code = some ((screen.write code).1, (screen.write code).2.buffer) := by
  have hprint : screen.buffer.print? code =
      some ((screen.print? code).elim (false, screen.buffer) fun printed =>
        (true, printed.buffer)) := by
    have hrubout : screen.buffer.rubout = screen.rubout := rfl
    unfold Buffer.print?
    rw [print?_eq, hrubout]
    split_ifs
    · exact congrArg (Option.map (Prod.mk true)) (newLine?_buffer screen _)
    · exact erase?_buffer screen
    · cases glyph? code with
      | none => rfl
      | some glyph => exact congrArg (Option.map (Prod.mk true)) (put?_buffer screen glyph)
  unfold Buffer.write? write
  rw [hprint]
  cases screen.print? code <;> rfl

theorem buffer_empty (rubout : Bool) : (empty rubout).buffer = Buffer.empty rubout := by
  simp [buffer, empty, Buffer.empty, Buffer.blankLine, blankRow]

theorem clear_buffer : screen.buffer.clear = screen.clear.buffer := by
  have hcells : screen.buffer.cells.map (fun _ => Buffer.blankLine) =
      List.replicate rows Buffer.blankLine := by
    rw [List.map_const', length_buffer_cells]
  have hblank : screen.clear.buffer.cells = List.replicate rows Buffer.blankLine :=
    congrArg Buffer.cells (buffer_empty screen.rubout)
  unfold Buffer.clear
  rw [hcells, ← hblank]
  rfl

/-- A text fills a row as it fills a line. -/
theorem lineOf_eq (text : Option String) :
    Buffer.lineOf text = (text.elim blankRow fun text => rowOf text.toList).toList := by
  refine List.ext_getElem? fun column => ?_
  by_cases hcolumn : column < columns
  · rw [Buffer.lineOf, getElem?_rightpad _ _ _ hcolumn, List.getElem?_take_of_lt hcolumn]
    cases text with
    | none => simp [blankRow, hcolumn]
    | some text =>
      simp only [Option.elim_some, List.getElem?_map, rowOf, Vector.toList_ofFn,
        List.getElem?_ofFn, hcolumn, dif_pos]
      cases text.toList[column]? <;> rfl
  · have hlength : (Buffer.lineOf text).length ≤ column := by
      rw [Buffer.lineOf, List.length_rightpad, List.length_take]
      omega
    rw [List.getElem?_eq_none hlength, List.getElem?_eq_none (by simpa using hcolumn)]

theorem restore_buffer (state : State) :
    screen.buffer.restore state = (screen.restore state).buffer := by
  have hcells : screen.buffer.cells.mapIdx (fun index _ => Buffer.lineOf state.rows[index]?) =
      (screen.restore state).buffer.cells := by
    refine List.ext_getElem? fun row => ?_
    rw [List.getElem?_mapIdx]
    by_cases hrow : row < rows
    · simp [buffer, restore, hrow, lineOf_eq]
    · have hnone (screen : Screen) : screen.buffer.cells[row]? = none :=
        List.getElem?_eq_none (by rw [length_buffer_cells]; exact Nat.not_lt.mp hrow)
      rw [hnone, hnone, Option.map_none]
  exact Buffer.ext hcells (val_clamp (by decide) _).symm (val_clamp (by decide) _).symm rfl rfl

/-- No edit asks for a row or a cell that is not there. -/
theorem edit?_buffer (edit : Edit) : screen.buffer.edit? edit = some (screen.edit edit).buffer := by
  cases edit with
  | write code => exact congrArg (Option.map (·.2)) (write?_buffer screen code)
  | clear => exact congrArg some (clear_buffer screen)
  | setRubout enabled => rfl
  | restore state => exact congrArg some (restore_buffer screen state)

theorem edited?_buffer (edits : List Edit) :
    screen.buffer.edited? edits = some (screen.edited edits).buffer := by
  induction edits generalizing screen with
  | nil => rfl
  | cons edit rest ih =>
    rw [Buffer.edited?, List.foldlM_cons, edit?_buffer]
    exact ih (screen.edit edit)

/-! ## What cells hold -/

variable {screen} {P : UInt8 → Prop}

/-- What can be printed may be in cells, and what was loaded. -/
theorem all_edit (h : screen.All P) (hcapital : ∀ code, CapitalCode code → P code) {edit : Edit}
    (hrestore : ∀ state, edit = .restore state → (screen.restore state).All P) :
    (screen.edit edit).All P := by
  cases edit with
  | write code => exact all_write h hcapital code
  | clear =>
    intro row column
    exact all_empty (hcapital _ capitalCode_blank) screen.rubout row column
  | setRubout enabled => exact h
  | restore state => exact hrestore state rfl

theorem all_edited (h : screen.All P) (hcapital : ∀ code, CapitalCode code → P code)
    {edits : List Edit}
    (hrestore : ∀ (screen : Screen) (state : State), .restore state ∈ edits →
      (screen.restore state).All P) :
    (screen.edited edits).All P := by
  induction edits generalizing screen with
  | nil => exact h
  | cons edit rest ih =>
    refine ih (all_edit h hcapital fun state heq => ?_) fun screen state hmem =>
      hrestore screen state (List.mem_cons_of_mem _ hmem)
    exact hrestore screen state (heq ▸ List.mem_cons_self)

theorem printable_edited (rubout : Bool) (edits : List Edit) :
    ((empty rubout).edited edits).Printable := by
  refine printable_iff_all.mpr (all_edited (all_empty printableCode_blank rubout)
    (fun _ hcode => hcode.printable) fun screen state _ => ?_)
  exact printable_iff_all.mp (printable_restore screen state)

/-- The lines of the buffer have the length of rows, and hold what the cells hold. -/
theorem line_of_mem_buffer (h : screen.All P) {line : List UInt8}
    (hline : line ∈ screen.buffer.cells) : line.length = columns ∧ ∀ code ∈ line, P code := by
  obtain ⟨row, hrow, rfl⟩ := List.mem_map.mp hline
  refine ⟨row.length_toList, fun code hcode => ?_⟩
  obtain ⟨index, hindex, rfl⟩ := Vector.getElem_of_mem (Vector.mem_toList_iff.mp hrow)
  obtain ⟨column, hcolumn, rfl⟩ := Vector.getElem_of_mem (Vector.mem_toList_iff.mp hcode)
  rw [← cell_eq_getElem hindex hcolumn]
  exact h index column

/-- The strings in which a screen is saved are as many as there are rows, and as long. -/
theorem length_state_rows (screen : Screen) :
    screen.state.rows.length = rows ∧ ∀ line ∈ screen.state.rows, line.length = columns := by
  refine ⟨by simp [state], fun line hline => ?_⟩
  obtain ⟨row, -, rfl⟩ := List.mem_map.mp hline
  simp [rowString]

/-- Whatever is written on a screen, loaded into it or done to it otherwise, the same can be done
in plain storage without asking for a row or a cell that is not there, and ends with rows of
forty printable characters, of which none is a small letter unless something was loaded, and
with the cursor on one of them. So the strings in which the screen is saved have forty characters
each, and any other screen that is restored from them shows the same. -/
theorem stays_on_screen (rubout : Bool) (edits : List Edit) :
    let screen := (empty rubout).edited edits
    ∃ buffer, (Buffer.empty rubout).edited? edits = some buffer ∧ buffer = screen.buffer ∧
      buffer.cells.length = rows ∧
      (∀ line ∈ buffer.cells, line.length = columns ∧
        ∀ code ∈ line, PrintableCode code ∧
          ((∀ state, Edit.restore state ∉ edits) → CapitalCode code)) ∧
      buffer.row < rows ∧ buffer.column < columns ∧
      screen.state.rows.length = rows ∧
      (∀ line ∈ screen.state.rows, line.length = columns) ∧
      ∀ other : Screen,
        (other.restore screen.state).cells = screen.cells ∧
        (other.restore screen.state).row = screen.row ∧
        (other.restore screen.state).column = screen.column := by
  intro screen
  have hprintable : screen.Printable := printable_edited rubout edits
  have hcells : screen.All fun code => PrintableCode code ∧
      ((∀ state, Edit.restore state ∉ edits) → CapitalCode code) := by
    intro row column
    refine ⟨printable_iff_all.mp hprintable row column, fun hnone => ?_⟩
    exact all_edited (all_empty capitalCode_blank rubout) (fun _ hcode => hcode)
      (fun _ state hmem => absurd hmem (hnone state)) row column
  obtain ⟨hlength, hlines⟩ := length_state_rows screen
  refine ⟨screen.buffer, ?_, rfl, length_buffer_cells screen,
    fun line hline => line_of_mem_buffer hcells hline, screen.row.isLt, screen.column.isLt,
    hlength, hlines, fun other => ?_⟩
  · rw [← buffer_empty]
    exact edited?_buffer (empty rubout) edits
  · rw [restore_state other hprintable]
    exact ⟨rfl, rfl, rfl⟩

end Screen

end AppleOne
