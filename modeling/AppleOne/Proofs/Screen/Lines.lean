import AppleOne.Proofs.Screen.Cells
import AppleOne.Proofs.Screen.Version
import Mathlib.Data.List.DropRight

/-!
# Lines

Without rubout the screen is a window on paper without end. A teletype prints the same codes on
such paper, line after line, none longer than forty characters; and the screen shows the last
twenty-four of its lines, each filled up with blanks, with the cursor behind the last character.
So rows that leave the screen at the top are the only thing that it loses.

## Main definitions

* `Paper`, and `Paper.print`, which prints a code on it.
* `Screen.Follows`: a screen that shows the end of the paper.

## Main results

* `Screen.follows_write`: printing keeps the two together.
* `Screen.shows_last_lines`: what is on the screen after any codes.
-/

namespace AppleOne

open Screen (rows columns blank returnCode glyph?)

/-- Paper without end: the lines that are finished, and the one that is being printed. -/
structure Paper where
  finished : List (List UInt8)
  current : List UInt8
  deriving DecidableEq, Repr

namespace Paper

/-- Paper on which nothing was printed. -/
def empty : Paper := ⟨[], []⟩

/-- All lines, the last of which is being printed. -/
def lines (paper : Paper) : List (List UInt8) := paper.finished ++ [paper.current]

/-- The last lines, as many as there are rows on a screen. -/
def last (paper : Paper) : List (List UInt8) := paper.lines.rtake rows

/-- Finishes the line. -/
def feed (paper : Paper) : Paper := ⟨paper.lines, []⟩

/-- Prints a character, and finishes the line if it is full. -/
def add (paper : Paper) (glyph : UInt8) : Paper :=
  let longer : Paper := { paper with current := paper.current ++ [glyph] }
  if longer.current.length = columns then longer.feed else longer

/-- Prints a code. -/
def print (paper : Paper) (code : UInt8) : Paper :=
  if code = returnCode then paper.feed
  else match glyph? code with
    | some glyph => paper.add glyph
    | none => paper

/-- Whether a code is not ignored. -/
def takes (code : UInt8) : Bool :=
  code == returnCode || (0x20 ≤ code && code ≤ 0x7E)

/-- The paper on which codes were printed. -/
def printed (codes : List UInt8) : Paper := codes.foldl print empty

/-- The character at some place of some line; blank where there is none. -/
def glyphAt (lines : List (List UInt8)) (line place : Nat) : UInt8 :=
  (lines[line]?.getD [])[place]?.getD blank

theorem glyphAt_of_le {lines : List (List UInt8)} {line : Nat} (h : lines.length ≤ line)
    (place : Nat) : glyphAt lines line place = blank := by
  simp [glyphAt, h]

theorem getElem?_concat {α : Type} (list : List α) (last : α) (index : Nat) :
    (list ++ [last])[index]? = if index = list.length then some last else list[index]? := by
  rcases Nat.lt_trichotomy index list.length with hlt | rfl | hgt
  · rw [List.getElem?_append_left hlt, if_neg (Nat.ne_of_lt hlt)]
  · rw [List.getElem?_concat_length, if_pos rfl]
  · have hle : (list ++ [last]).length ≤ index := by
      rw [List.length_append, List.length_singleton]
      exact hgt
    rw [if_neg (Nat.ne_of_gt hgt), List.getElem?_eq_none hle,
      List.getElem?_eq_none (Nat.le_of_lt hgt)]

/-- An empty line cannot be told from one that is not there. -/
theorem glyphAt_feed (lines : List (List UInt8)) (line place : Nat) :
    glyphAt (lines ++ [[]]) line place = glyphAt lines line place := by
  simp only [glyphAt, getElem?_concat]
  split
  · next h => simp [h]
  · rfl

/-- A character that is printed is at the end of the last line. -/
theorem glyphAt_add (finished : List (List UInt8)) (current : List UInt8) (glyph : UInt8)
    (line place : Nat) :
    glyphAt (finished ++ [current ++ [glyph]]) line place =
      if line = finished.length ∧ place = current.length then glyph
      else glyphAt (finished ++ [current]) line place := by
  simp only [glyphAt, getElem?_concat]
  by_cases hline : line = finished.length
  · simp only [hline, if_true, Option.getD_some, getElem?_concat, true_and]
    split <;> rfl
  · simp [hline]

end Paper

namespace Screen

open Paper

/-- The screen shows the last of some lines, and its cursor is in the row of the very last. -/
structure ShowsEnd (screen : Screen) (lines : List (List UInt8)) : Prop where
  row : screen.row.val + 1 = min lines.length rows
  cell : ∀ row < rows, ∀ column,
    screen.cell row column = glyphAt lines (lines.length - rows + row) column

/-- The screen shows the end of the paper, and prints where it prints. -/
structure Follows (screen : Screen) (paper : Paper) : Prop extends ShowsEnd screen paper.lines where
  column : screen.column.val = paper.current.length
  rubout : screen.rubout = false
  lengths : ∀ line ∈ paper.finished, line.length ≤ columns

variable {screen : Screen} {paper : Paper} {lines : List (List UInt8)}

theorem follows_empty : (empty false).Follows .empty where
  row := rfl
  cell row _ column := by
    rw [cell_empty]
    exact ((glyphAt_feed [] _ _).trans (glyphAt_of_le (Nat.zero_le _) _)).symm
  column := rfl
  rubout := rfl
  lengths := by simp [Paper.empty]

/-- A new line makes the window move on by one line, at once or when it is full. -/
theorem showsEnd_newLine (h : screen.ShowsEnd lines) : screen.newLine.ShowsEnd (lines ++ [[]]) := by
  have hrow := h.row
  rcases screen.newLine_cases with ⟨hlt, hcells, hnext⟩ | ⟨hlast, hcells, hsame⟩
  · refine ⟨?_, fun row hrow column => ?_⟩
    · simp only [List.length_append, List.length_singleton]
      omega
    · have hstart : (lines ++ [[]]).length - rows = lines.length - rows := by
        simp only [List.length_append, List.length_singleton]
        omega
      rw [cell_congr hcells, h.cell row hrow, glyphAt_feed, hstart]
  · have hlength : rows ≤ lines.length := by omega
    refine ⟨?_, fun row hrow column => ?_⟩
    · simp only [List.length_append, List.length_singleton, hsame]
      omega
    · have hstart : (lines ++ [[]]).length - rows + row = lines.length - rows + (row + 1) := by
        simp only [List.length_append, List.length_singleton]
        omega
      rw [cell_of_scrolled hcells, glyphAt_feed, hstart]
      by_cases hbelow : row + 1 < rows
      · exact h.cell (row + 1) hbelow column
      · -- the row at the bottom is new, and so is the line
        rw [cell_of_outside fun h => hbelow h.1, glyphAt_of_le (by omega)]

/-- A character under the cursor is one at the end of the last line. -/
theorem showsEnd_setCell (h : screen.ShowsEnd paper.lines)
    (hcolumn : screen.column.val = paper.current.length) (glyph : UInt8) :
    (screen.setCell glyph).ShowsEnd (paper.finished ++ [paper.current ++ [glyph]]) := by
  have hrow := h.row
  simp only [lines, List.length_append, List.length_singleton] at hrow
  have hlength : (paper.finished ++ [paper.current ++ [glyph]]).length = paper.lines.length := by
    simp [lines]
  refine ⟨by rw [hlength]; exact h.row, fun row hlt column => ?_⟩
  have hplace : paper.lines.length - rows + row = paper.finished.length ↔
      row = screen.row.val := by
    simp only [lines, List.length_append, List.length_singleton]
    omega
  rw [cell_setCell, glyphAt_add, hlength, hcolumn, h.cell row hlt]
  simp only [hplace]
  rfl

theorem follows_newLine (h : screen.Follows paper) : screen.newLine.Follows paper.feed where
  toShowsEnd := showsEnd_newLine h.toShowsEnd
  column := congrArg Fin.val screen.column_newLine
  rubout := screen.rubout_newLine.trans h.rubout
  lengths := by
    have hcurrent : paper.current.length ≤ columns := h.column ▸ Nat.le_of_lt screen.column.isLt
    simp only [feed, lines, List.forall_mem_append, List.forall_mem_singleton]
    exact ⟨h.lengths, hcurrent⟩

theorem follows_put (h : screen.Follows paper) (glyph : UInt8) :
    (screen.put glyph).Follows (paper.add glyph) := by
  have hset := showsEnd_setCell h.toShowsEnd h.column glyph
  have hlength : (paper.current ++ [glyph]).length = screen.column.val + 1 := by
    simp [h.column]
  rcases screen.put_cases glyph with ⟨hlt, hcells, hrow, hcolumn, hrubout⟩ | ⟨hfull, hput⟩
  · rw [add, if_neg (by rw [hlength]; exact Nat.ne_of_lt hlt)]
    refine ⟨⟨by rw [hrow]; exact hset.row, fun row hlt column => ?_⟩, hcolumn.trans hlength.symm,
      hrubout.trans h.rubout, h.lengths⟩
    exact (cell_congr hcells).trans (hset.cell row hlt column)
  · rw [add, if_pos (hlength.trans hfull), hput]
    -- the line that is full ends like any other, though the cursor has not moved yet
    refine ⟨showsEnd_newLine hset, congrArg Fin.val (column_newLine _),
      (rubout_newLine _).trans h.rubout, ?_⟩
    simp only [feed, lines, List.forall_mem_append, List.forall_mem_singleton]
    exact ⟨h.lengths, (hlength.trans hfull).le⟩

theorem Follows.touch (h : screen.Follows paper) : screen.touch.Follows paper :=
  ⟨⟨h.row, h.cell⟩, h.column, h.rubout, h.lengths⟩

/-- The screen and the paper ignore the same codes, and stay together on all others. -/
theorem follows_write (h : screen.Follows paper) (code : UInt8) :
    (screen.write code).2.Follows (paper.print code) ∧ (screen.write code).1 = takes code := by
  have hprint : screen.print? code =
      if code = returnCode then some screen.newLine else (glyph? code).map screen.put := by
    simp only [print?_eq, h.rubout, Bool.false_eq_true, false_and, if_false]
  unfold write Paper.print takes
  rw [hprint]
  by_cases hreturn : code = returnCode
  · simp only [hreturn, if_true]
    exact ⟨(follows_newLine h).touch, by decide⟩
  · have hglyph := isSome_glyph? code
    simp only [hreturn, if_false]
    cases hcase : glyph? code with
    | some glyph =>
      rw [hcase, Option.isSome_some, eq_self, true_iff] at hglyph
      simp only [Option.map_some]
      exact ⟨(follows_put h glyph).touch, by simp [hglyph]⟩
    | none =>
      rw [hcase, Option.isSome_none, Bool.false_eq_true, false_iff] at hglyph
      simp only [Option.map_none]
      exact ⟨h, by simpa [hreturn] using hglyph⟩

/-- The version counts the codes that are not ignored. -/
theorem follows_writeAll (h : screen.Follows paper) (codes : List UInt8) :
    (screen.writeAll codes).Follows (codes.foldl Paper.print paper) ∧
      (screen.writeAll codes).version =
        screen.version + UInt64.ofNat (codes.countP takes) := by
  induction codes generalizing screen paper with
  | nil => exact ⟨h, (UInt64.add_zero _).symm⟩
  | cons code rest ih =>
    obtain ⟨hwritten, htakes⟩ := follows_write h code
    obtain ⟨hlast, hversion⟩ := ih hwritten
    refine ⟨hlast, hversion.trans ?_⟩
    rw [List.countP_cons, ← htakes]
    rcases screen.write_cases code with hsame | ⟨hchanged, hraised⟩
    · simp [hsame]
    · simp only [hchanged, hraised, if_true, UInt64.ofNat_add]
      rw [UInt64.add_assoc, UInt64.add_comm 1]
      rfl

/-! ## Rows -/

/-- A row of the screen is a line filled up with blanks. -/
theorem toList_row (h : screen.ShowsEnd lines) (hlengths : ∀ line ∈ lines, line.length ≤ columns)
    {row : Nat} (hrow : row < rows) :
    screen.cells[row].toList =
      (lines[lines.length - rows + row]?.getD []).rightpad columns blank := by
  have hlength : (lines[lines.length - rows + row]?.getD []).length ≤ columns := by
    cases hline : lines[lines.length - rows + row]? with
    | none => exact Nat.zero_le _
    | some line => exact hlengths line (List.mem_of_getElem? hline)
  refine List.ext_getElem? fun column => ?_
  by_cases hcolumn : column < columns
  · have hcell := h.cell row hrow column
    rw [cell_eq_getElem hrow hcolumn] at hcell
    rw [getElem?_rightpad _ _ _ hcolumn, Vector.getElem?_toList, Vector.getElem?_eq_getElem hcolumn,
      hcell, glyphAt]
  · rw [List.getElem?_eq_none (by simpa using hcolumn),
      List.getElem?_eq_none (by rw [List.length_rightpad]; omega)]

/-- The rows of the screen are the last lines, and blank rows if there are fewer. -/
theorem toList_rows (h : screen.ShowsEnd lines) (hlengths : ∀ line ∈ lines, line.length ≤ columns) :
    screen.cells.toList.map (·.toList) =
      ((lines.rtake rows).map (·.rightpad columns blank)).rightpad rows
        (List.replicate columns blank) := by
  refine List.ext_getElem? fun row => ?_
  by_cases hrow : row < rows
  · rw [getElem?_rightpad _ _ _ hrow, List.getElem?_map, Vector.getElem?_toList,
      Vector.getElem?_eq_getElem hrow, Option.map_some, toList_row h hlengths hrow,
      List.getElem?_map, List.rtake, List.getElem?_drop]
    cases lines[lines.length - rows + row]? with
    | none => rfl
    | some line => rfl
  · rw [List.getElem?_eq_none (by simpa using hrow), List.getElem?_eq_none]
    rw [List.length_rightpad, List.length_map, List.rtake, List.length_drop]
    omega

/-- Whatever is printed on a blank screen without rubout, the screen shows the last lines of the
paper on which the same is printed, each filled up with blanks and followed by blank rows if
there are fewer than rows. The cursor is behind the line that is being printed, and the version
is the number of codes that are not ignored. -/
theorem shows_last_lines (codes : List UInt8) :
    ((empty false).writeAll codes).cells.toList.map (·.toList) =
        ((Paper.printed codes).last.map (·.rightpad columns blank)).rightpad rows
          (List.replicate columns blank) ∧
      ((empty false).writeAll codes).row.val + 1 = (Paper.printed codes).last.length ∧
      ((empty false).writeAll codes).column.val = (Paper.printed codes).current.length ∧
      ((empty false).writeAll codes).version = UInt64.ofNat (codes.countP takes) := by
  obtain ⟨hfollows, hversion⟩ := follows_writeAll follows_empty codes
  have hlengths : ∀ line ∈ (Paper.printed codes).lines, line.length ≤ columns := by
    simp only [Paper.lines, List.forall_mem_append, List.forall_mem_singleton]
    exact ⟨hfollows.lengths, hfollows.column ▸ Nat.le_of_lt (Fin.isLt _)⟩
  refine ⟨toList_rows hfollows.toShowsEnd hlengths, ?_, hfollows.column, ?_⟩
  · have hlength : (Paper.printed codes).last.length =
        min (Paper.printed codes).lines.length rows := by
      simp only [Paper.last, List.rtake, List.length_drop]
      omega
    rw [hlength]
    exact hfollows.row
  · exact hversion.trans (UInt64.zero_add _)

/-- A ruler of forty characters finishes its line, and the return behind it an empty one. -/
example : (Paper.printed (List.replicate 40 0x2D ++ [0x07, 0x0D, 0x61])).lines =
    [List.replicate 40 0x2D, [], [0x41]] := by
  decide +kernel

end Screen

end AppleOne
