import AppleOne.Screen
import Mathlib.Tactic.Common

/-!
# The cells of the screen

What each operation does to the single cells and to the cursor. The cells are looked up by row
and column as plain numbers; outside the screen everything is blank, so that a screen that
moves up by one row is one whose cells are those of the row below, the last row included.

## Main definitions

* `Screen.cell`, and `Screen.cellAt` in reading order: what is in a cell.
* `Screen.position`: where the cursor is in reading order.
* `Screen.glyph?`: the character that a code prints.

## Main results

* `Screen.cell_setCell`, `Screen.newLine_cases`, `Screen.put_cases`: what becomes of the cells.
* `Screen.position_put`, `Screen.erase?_cases`: printing and erasing in reading order.
* `Screen.print?_eq`: what a code stands for.
-/

namespace AppleOne.Screen

/-- The code in a cell; blank outside the screen. -/
def cell (screen : Screen) (row column : Nat) : UInt8 :=
  (screen.cells[row]?.bind (·[column]?)).getD blank

/-- The character that a code prints, which is its own or, for a small letter, the capital. -/
def glyph? (code : UInt8) : Option UInt8 :=
  if 0x20 ≤ code ∧ code ≤ 0x5F then some code
  else if 0x60 ≤ code ∧ code ≤ 0x7E then some (code - 0x20)
  else none

variable {screen : Screen} {row column : Nat}

/-! ## Cells -/

theorem cell_eq_getElem (hrow : row < rows) (hcolumn : column < columns) :
    screen.cell row column = screen.cells[row][column] := by
  simp [cell, hrow, hcolumn]

theorem cell_of_outside (h : ¬ (row < rows ∧ column < columns)) :
    screen.cell row column = blank := by
  unfold cell
  by_cases hrow : row < rows
  · have hcolumn : ¬ column < columns := fun hlt => h ⟨hrow, hlt⟩
    simp [hrow, hcolumn]
  · simp [hrow]

theorem cell_congr {first second : Screen} (h : first.cells = second.cells) :
    first.cell row column = second.cell row column := by
  rw [cell, h, cell]

theorem cell_empty (rubout : Bool) (row column : Nat) : (empty rubout).cell row column = blank := by
  by_cases h : row < rows ∧ column < columns
  · simp [cell_eq_getElem h.1 h.2, empty, blankRow]
  · exact cell_of_outside h

/-- Which code each cell holds tells what all of them are. -/
theorem cells_eq_of_cell {first second : Screen}
    (h : ∀ row < rows, ∀ column < columns, first.cell row column = second.cell row column) :
    first.cells = second.cells := by
  ext row hrow column hcolumn
  rw [← cell_eq_getElem hrow hcolumn, ← cell_eq_getElem hrow hcolumn, h row hrow column hcolumn]

/-- The cell under the cursor is replaced, and no other. -/
theorem cell_setCell (screen : Screen) (code : UInt8) (row column : Nat) :
    (screen.setCell code).cell row column =
      if row = screen.row.val ∧ column = screen.column.val then code
      else screen.cell row column := by
  have hline : screen.cells[screen.row.val]? = some screen.cells[screen.row] := by simp
  simp only [cell, setCell, Vector.getElem?_set]
  by_cases hrow : row = screen.row.val
  · simp only [hrow, hline, Vector.getElem?_set, true_and, if_true, Option.bind_some]
    by_cases hcolumn : column = screen.column.val
    · simp [hcolumn]
    · simp [hcolumn, Ne.symm hcolumn]
  · simp [hrow, Ne.symm hrow]

/-- If all rows have moved up, every cell holds what was below it. -/
theorem cell_of_scrolled {scrolled : Screen} (h : scrolled.cells = scroll screen.cells) :
    scrolled.cell row column = screen.cell (row + 1) column := by
  simp only [cell, h, scroll, Vector.getElem?_ofFn]
  by_cases hrow : row + 1 < rows
  · have hlt : row < rows := Nat.lt_of_succ_lt hrow
    simp [hrow, hlt]
  · -- the last row has become blank, and there is nothing below it
    have hnone : screen.cells[row + 1]? = none := by simpa using hrow
    by_cases hlt : row < rows
    · simp only [hlt, hrow, hnone, dif_pos, dif_neg, not_false_eq_true, Option.bind_some,
        Option.bind_none, blankRow, Vector.getElem?_replicate]
      split <;> rfl
    · simp [hlt, hnone]

/-- A new line moves the cursor to the beginning of the next row, or, from the last one, all
rows up. -/
theorem newLine_cases (screen : Screen) :
    (screen.row.val + 1 < rows ∧ screen.newLine.cells = screen.cells ∧
        screen.newLine.row.val = screen.row.val + 1) ∨
      (screen.row.val + 1 = rows ∧ screen.newLine.cells = scroll screen.cells ∧
        screen.newLine.row = screen.row) := by
  unfold newLine
  split
  · next h => exact .inl ⟨h, rfl, rfl⟩
  · next h => exact .inr ⟨Nat.le_antisymm screen.row.isLt (Nat.not_lt.mp h), rfl, rfl⟩

theorem column_newLine (screen : Screen) : screen.newLine.column = 0 := by
  unfold newLine
  split <;> rfl

theorem rubout_newLine (screen : Screen) : screen.newLine.rubout = screen.rubout := by
  unfold newLine
  split <;> rfl

/-- A character that is printed is followed by a new line at the end of a row. -/
theorem put_cases (screen : Screen) (code : UInt8) :
    (screen.column.val + 1 < columns ∧ (screen.put code).cells = (screen.setCell code).cells ∧
        (screen.put code).row = screen.row ∧
        (screen.put code).column.val = screen.column.val + 1 ∧
        (screen.put code).rubout = screen.rubout) ∨
      (screen.column.val + 1 = columns ∧ screen.put code = (screen.setCell code).newLine) := by
  unfold put
  simp only
  split
  · next h => exact .inl ⟨h, rfl, rfl, rfl, rfl⟩
  · next h => exact .inr ⟨Nat.le_antisymm screen.column.isLt (Nat.not_lt.mp h), rfl⟩

theorem getElem?_rightpad {α : Type} (list : List α) (length : Nat) (filler : α) {index : Nat}
    (h : index < length) :
    (list.rightpad length filler)[index]? = some (list[index]?.getD filler) := by
  rw [List.rightpad, List.getElem?_append]
  split
  · next hlt => simp [hlt]
  · next hnot =>
    have hfill : index - list.length < length - list.length := by omega
    simp [hfill, hnot]

/-! ## Reading order -/

/-- The number of cells before the cursor in reading order. -/
def position (screen : Screen) : Nat := columns * screen.row.val + screen.column.val

/-- The code in a cell by the number of cells before it in reading order. -/
def cellAt (screen : Screen) (place : Nat) : UInt8 :=
  screen.cell (place / columns) (place % columns)

/-- A place in reading order is a row and a column. -/
theorem div_mod_eq_iff {place row column : Nat} (h : column < columns) :
    place / columns = row ∧ place % columns = column ↔ place = columns * row + column := by
  unfold columns at *
  omega

theorem cell_eq_cellAt (hcolumn : column < columns) :
    screen.cell row column = screen.cellAt (columns * row + column) := by
  obtain ⟨hdiv, hmod⟩ := (div_mod_eq_iff hcolumn).mpr rfl
  rw [cellAt, hdiv, hmod]

theorem div_mod_position (screen : Screen) :
    screen.position / columns = screen.row.val ∧ screen.position % columns = screen.column.val :=
  (div_mod_eq_iff screen.column.isLt).mpr rfl

/-- The cursor is told by its place in reading order. -/
theorem cursor_eq_of_position {first second : Screen} (h : first.position = second.position) :
    first.row = second.row ∧ first.column = second.column := by
  obtain ⟨hrow, hcolumn⟩ := first.div_mod_position
  rw [h] at hrow hcolumn
  exact ⟨Fin.ext (hrow.symm.trans second.div_mod_position.1),
    Fin.ext (hcolumn.symm.trans second.div_mod_position.2)⟩

/-- The first place is the upper left corner. -/
theorem position_eq_zero_iff (screen : Screen) :
    screen.position = 0 ↔ screen.row = 0 ∧ screen.column = 0 := by
  simp only [position, columns, Fin.ext_iff, Fin.val_zero]
  omega

theorem cellAt_setCell (screen : Screen) (code : UInt8) (place : Nat) :
    (screen.setCell code).cellAt place =
      if place = screen.position then code else screen.cellAt place :=
  (cell_setCell _ _ _ _).trans (if_congr (div_mod_eq_iff screen.column.isLt) rfl rfl)

/-- Printing goes on by one cell, unless all rows have to move up. -/
theorem position_put (code : UInt8) (h : screen.position + 1 < columns * rows) :
    (screen.put code).position = screen.position + 1 ∧
      (screen.put code).cells = (screen.setCell code).cells ∧
      (screen.put code).rubout = screen.rubout := by
  unfold position at *
  rcases screen.put_cases code with ⟨-, hcells, hrow, hcolumn, hrubout⟩ | ⟨hfull, hput⟩
  · exact ⟨by rw [hrow, hcolumn, Nat.add_assoc], hcells, hrubout⟩
  · -- the row is full, but it is not the last one
    have hset : (screen.setCell code).row = screen.row := rfl
    have hstart : (screen.setCell code).newLine.column.val = 0 :=
      congrArg Fin.val (column_newLine _)
    rw [hput, rubout_newLine, hstart]
    rcases (screen.setCell code).newLine_cases with ⟨-, hcells, hrow⟩ | ⟨hlast, -, -⟩
    · refine ⟨?_, hcells, rfl⟩
      rw [hrow, hset, Nat.mul_add, Nat.mul_one, Nat.add_assoc _ _ 1, hfull, Nat.add_zero]
    · unfold columns rows at *
      rw [hset] at hlast
      omega

/-- Going back moves the cursor only. -/
theorem cells_back? {back : Screen} (h : screen.back? = some back) :
    back.cells = screen.cells := by
  unfold back? at h
  split_ifs at h
  · obtain rfl := Option.some.inj h
    rfl
  · obtain rfl := Option.some.inj h
    rfl

/-- Erasing goes back by one cell and blanks it, unless the cursor is in the first one. -/
theorem erase?_cases (screen : Screen) :
    (screen.position = 0 ∧ screen.erase? = none) ∨
      ∃ erased, screen.erase? = some erased ∧ erased.position + 1 = screen.position ∧
        (∀ place, erased.cellAt place =
          if place = erased.position then blank else screen.cellAt place) ∧
        erased.rubout = screen.rubout := by
  unfold erase? back?
  split_ifs with hcolumn hrow
  · refine .inr ⟨_, rfl, ?_, fun place => cellAt_setCell _ blank place, rfl⟩
    have hback := Nat.sub_add_cancel hcolumn
    exact (Nat.add_assoc _ _ _).trans (congrArg (columns * screen.row.val + ·) hback)
  · refine .inr ⟨_, rfl, ?_, fun place => cellAt_setCell _ blank place, rfl⟩
    have hback : columns * (screen.row.val - 1) + (columns - 1) + 1 =
        columns * screen.row.val + screen.column.val := by
      unfold columns at *
      omega
    exact hback
  · refine .inl ⟨?_, rfl⟩
    unfold position columns at *
    omega

/-! ## Codes -/

/-- A code asks for a new line, takes back a character, prints one or is ignored. -/
theorem print?_eq (screen : Screen) (code : UInt8) :
    screen.print? code =
      if code = returnCode then some screen.newLine
      else if screen.rubout = true ∧ (code = ruboutCode ∨ code = backspaceCode) then screen.erase?
      else (glyph? code).map screen.put := by
  simp only [print?, glyph?, Bool.and_eq_true, Bool.or_eq_true, beq_iff_eq]
  split_ifs <;> rfl

/-- The codes that print are those from blank to tilde. -/
theorem isSome_glyph? (code : UInt8) :
    (glyph? code).isSome = true ↔ 0x20 ≤ code ∧ code ≤ 0x7E := by
  simp only [glyph?, UInt8.le_iff_toNat_le, UInt8.reduceToNat]
  split_ifs <;> simp <;> omega

end AppleOne.Screen
