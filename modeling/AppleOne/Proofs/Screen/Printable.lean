import AppleOne.Proofs.Screen.Cells

/-!
# Printable cells

Every cell of a screen holds a printable character of ASCII, whatever is written to the
screen or loaded into it. So the strings in which a screen is saved tell all of it, and a
screen that is restored from its own state is the same but for the version. Small letters and
what goes with them are only there if they were loaded.

## Main definitions

* `Screen.Printable`: all cells are printable; `Screen.All`: all are of some kind.
* `Screen.Alike`: screens that differ in their versions only.

## Main results

* `Screen.all_write`: codes of capitals, digits and signs are all that is written.
* `Screen.printable_write`, `Screen.printable_restore`: cells stay printable.
* `Screen.restore_state`: restoring what was saved.
* `Screen.alike_write`: the version has no influence.
-/

namespace AppleOne.Screen

/-- A code that stands for a character of its own. -/
def PrintableCode (code : UInt8) : Prop := 0x20 ≤ code ∧ code ≤ 0x7E

/-- All cells hold printable codes. -/
def Printable (screen : Screen) : Prop :=
  ∀ (row column : Nat) (hrow : row < rows) (hcolumn : column < columns),
    PrintableCode screen.cells[row][column]

/-- A code that can be printed: those of small letters and what goes with them cannot. -/
def CapitalCode (code : UInt8) : Prop := 0x20 ≤ code ∧ code ≤ 0x5F

theorem CapitalCode.printable {code : UInt8} (h : CapitalCode code) : PrintableCode code :=
  ⟨h.1, UInt8.le_trans h.2 (by decide)⟩

theorem capitalCode_blank : CapitalCode blank := ⟨by decide, by decide⟩

theorem printableCode_blank : PrintableCode blank := capitalCode_blank.printable

/-- What is printed is no small letter. -/
theorem capitalCode_of_glyph? {code glyph : UInt8} (h : glyph? code = some glyph) :
    CapitalCode glyph := by
  unfold glyph? at h
  split_ifs at h with hown hsmall
  · obtain rfl := Option.some.inj h
    exact hown
  · -- small letters are printed as capitals, which are 0x20 lower
    obtain rfl := Option.some.inj h
    have hle : (0x20 : UInt8) ≤ code := UInt8.le_trans (by decide) hsmall.1
    simp only [CapitalCode, UInt8.le_iff_toNat_le, UInt8.toNat_sub_of_le _ _ hle,
      UInt8.reduceToNat] at hsmall ⊢
    omega

/-- All cells hold codes of some kind. Outside the screen this is the blank. -/
def All (P : UInt8 → Prop) (screen : Screen) : Prop :=
  ∀ row column, P (screen.cell row column)

variable {screen : Screen}

theorem printable_iff_all : screen.Printable ↔ screen.All PrintableCode := by
  constructor
  · intro h row column
    by_cases hinside : row < rows ∧ column < columns
    · rw [cell_eq_getElem hinside.1 hinside.2]
      exact h row column hinside.1 hinside.2
    · rw [cell_of_outside hinside]
      exact printableCode_blank
  · intro h row column hrow hcolumn
    rw [← cell_eq_getElem hrow hcolumn]
    exact h row column

section All

variable {P : UInt8 → Prop}

theorem all_empty (hblank : P blank) (rubout : Bool) : (empty rubout).All P := by
  intro row column
  rw [cell_empty]
  exact hblank

theorem all_newLine (h : screen.All P) : screen.newLine.All P := by
  intro row column
  rcases screen.newLine_cases with ⟨-, hcells, -⟩ | ⟨-, hcells, -⟩
  · rw [cell_congr hcells]
    exact h row column
  · rw [cell_of_scrolled hcells]
    exact h (row + 1) column

theorem all_setCell (h : screen.All P) {code : UInt8} (hcode : P code) :
    (screen.setCell code).All P := by
  intro row column
  rw [cell_setCell]
  split
  · exact hcode
  · exact h row column

theorem all_put (h : screen.All P) {code : UInt8} (hcode : P code) : (screen.put code).All P := by
  rcases screen.put_cases code with ⟨-, hcells, -⟩ | ⟨-, hput⟩
  · intro row column
    rw [cell_congr hcells]
    exact all_setCell h hcode row column
  · rw [hput]
    exact all_newLine (all_setCell h hcode)

theorem all_erase? (h : screen.All P) (hblank : P blank) {erased : Screen}
    (herased : screen.erase? = some erased) : erased.All P := by
  obtain ⟨back, hback, rfl⟩ := Option.map_eq_some_iff.mp herased
  refine all_setCell (fun row column => ?_) hblank
  rw [cell_congr (cells_back? hback)]
  exact h row column

/-- Whatever is written, cells hold what can be printed, unless they held something else. -/
theorem all_write (h : screen.All P) (hcapital : ∀ code, CapitalCode code → P code)
    (code : UInt8) : (screen.write code).2.All P := by
  have hprint : ∀ printed ∈ screen.print? code, printed.All P := by
    intro printed hprinted
    rw [print?_eq] at hprinted
    split_ifs at hprinted with hreturn hrubout
    · obtain rfl := Option.some.inj hprinted
      exact all_newLine h
    · exact all_erase? h (hcapital _ capitalCode_blank) hprinted
    · obtain ⟨glyph, hglyph, rfl⟩ := Option.map_eq_some_iff.mp hprinted
      exact all_put h (hcapital _ (capitalCode_of_glyph? hglyph))
  unfold write
  cases hprinted : screen.print? code with
  | some printed => exact hprint printed hprinted
  | none => exact h

end All

theorem printable_empty (rubout : Bool) : (empty rubout).Printable :=
  printable_iff_all.mpr (all_empty printableCode_blank rubout)

/-- Whatever is written, all cells stay printable. -/
theorem printable_write (h : screen.Printable) (code : UInt8) :
    (screen.write code).2.Printable :=
  printable_iff_all.mpr (all_write (printable_iff_all.mp h) (fun _ hcode => hcode.printable) code)

theorem printableCode_codeOf (c : Char) : PrintableCode (codeOf c) := by
  unfold codeOf
  split
  · next h =>
    have hnat : (UInt8.ofNat c.toNat).toNat = c.toNat := by
      rw [UInt8.toNat_ofNat']
      omega
    simp only [PrintableCode, UInt8.le_iff_toNat_le, Nat.toUInt8, hnat, UInt8.reduceToNat]
    exact h
  · exact printableCode_blank

theorem printable_rowOf (text : List Char) (column : Nat) (hcolumn : column < columns) :
    PrintableCode (rowOf text)[column] := by
  rw [rowOf, Vector.getElem_ofFn]
  cases text[column]? with
  | none => exact printableCode_blank
  | some c => exact printableCode_codeOf c

/-- Whatever is loaded, all cells are printable. -/
theorem printable_restore (screen : Screen) (state : State) : (screen.restore state).Printable := by
  intro row column hrow hcolumn
  have hline (line : Option String) :
      PrintableCode (line.elim blankRow fun text => rowOf text.toList)[column] := by
    cases line with
    | none => simpa [blankRow] using printableCode_blank
    | some text => exact printable_rowOf text.toList column hcolumn
  simp only [restore, Vector.getElem_ofFn]
  exact hline state.rows[row]?

/-! ## Restoring what was saved -/

theorem codeOf_charOf {code : UInt8} (h : PrintableCode code) : codeOf (charOf code) = code := by
  obtain ⟨hlow, hhigh⟩ := h
  simp only [UInt8.le_iff_toNat_le, UInt8.reduceToNat] at hlow hhigh
  have hvalid : code.toNat.isValidChar := Or.inl (by omega)
  have hnat : (charOf code).toNat = code.toNat := by
    rw [charOf, Char.ofNat, dif_pos hvalid]
    rfl
  unfold codeOf
  rw [hnat, if_pos ⟨hlow, hhigh⟩, Nat.toUInt8, UInt8.ofNat_toNat]

/-- A row of printable cells is told by its string. -/
theorem rowOf_rowString {row : Row} (h : ∀ column (hcolumn : column < columns),
    PrintableCode row[column]) : rowOf (rowString row).toList = row := by
  ext column hcolumn
  simp [rowOf, rowString, codeOf_charOf (h column hcolumn)]

theorem val_clamp {n : Nat} (positive : 0 < n) (i : Nat) :
    (clamp positive i).val = min i (n - 1) := by
  unfold clamp
  split
  · simp only
    omega
  · simp only
    omega

theorem clamp_fin {n : Nat} (positive : 0 < n) (i : Fin n) : clamp positive i.val = i := by
  simp [clamp]

/-- A screen that is restored from a state has what was saved. -/
theorem restore_state (other : Screen) (h : screen.Printable) :
    other.restore screen.state =
      { screen with
        rubout := other.rubout
        version := max other.version screen.version + 1 } := by
  have hline (row : Nat) (hrow : row < rows) :
      (screen.state.rows[row]?).elim blankRow (fun text => rowOf text.toList) =
        screen.cells[row] := by
    have hlength : row < screen.cells.toList.length := by simpa using hrow
    have hget : screen.state.rows[row]? = some (rowString screen.cells[row]) := by
      simp only [state, List.getElem?_map, List.getElem?_eq_getElem hlength, Option.map_some,
        Vector.getElem_toList]
    rw [hget, Option.elim_some]
    exact rowOf_rowString fun column hcolumn => h row column hrow hcolumn
  have hcells : (Vector.ofFn fun i : Fin rows => (screen.state.rows[i.val]?).elim blankRow
      fun text => rowOf text.toList) = screen.cells := by
    ext row hrow : 1
    rw [Vector.getElem_ofFn]
    exact hline row hrow
  simp only [restore, hcells]
  simp only [state, clamp_fin]

/-! ## Versions -/

/-- The screen under another version. -/
def withVersion (screen : Screen) (version : UInt64) : Screen := { screen with version }

/-- Screens that differ in their versions only. -/
def Alike (first second : Screen) : Prop :=
  first.withVersion 0 = second.withVersion 0

theorem alike_iff {first second : Screen} :
    first.Alike second ↔ second = first.withVersion second.version := by
  obtain ⟨cells, row, column, rubout, version⟩ := first
  obtain ⟨cells', row', column', rubout', version'⟩ := second
  simp only [Alike, withVersion, mk.injEq, and_true]
  constructor
  · rintro ⟨rfl, rfl, rfl, rfl⟩
    exact ⟨rfl, rfl, rfl, rfl⟩
  · rintro ⟨rfl, rfl, rfl, rfl⟩
    exact ⟨rfl, rfl, rfl, rfl⟩

section

variable (screen : Screen) (version : UInt64)

theorem newLine_withVersion :
    (screen.withVersion version).newLine = screen.newLine.withVersion version := by
  unfold newLine
  by_cases h : screen.row.val + 1 < rows
  · have h' : (screen.withVersion version).row.val + 1 < rows := h
    rw [dif_pos h, dif_pos h']
    rfl
  · have h' : ¬ (screen.withVersion version).row.val + 1 < rows := h
    rw [dif_neg h, dif_neg h']
    rfl

theorem put_withVersion (code : UInt8) :
    (screen.withVersion version).put code = (screen.put code).withVersion version := by
  have hset : (screen.withVersion version).setCell code =
      (screen.setCell code).withVersion version := rfl
  unfold put
  simp only [hset]
  by_cases h : (screen.setCell code).column.val + 1 < columns
  · have h' : ((screen.setCell code).withVersion version).column.val + 1 < columns := h
    rw [dif_pos h, dif_pos h']
    rfl
  · have h' : ¬ ((screen.setCell code).withVersion version).column.val + 1 < columns := h
    rw [dif_neg h, dif_neg h']
    exact newLine_withVersion _ version

theorem back?_withVersion :
    (screen.withVersion version).back? = screen.back?.map (·.withVersion version) := by
  unfold back?
  by_cases hcolumn : 0 < screen.column.val
  · have hcolumn' : 0 < (screen.withVersion version).column.val := hcolumn
    rw [if_pos hcolumn, if_pos hcolumn']
    rfl
  · have hcolumn' : ¬ 0 < (screen.withVersion version).column.val := hcolumn
    rw [if_neg hcolumn, if_neg hcolumn']
    by_cases hrow : 0 < screen.row.val
    · have hrow' : 0 < (screen.withVersion version).row.val := hrow
      rw [if_pos hrow, if_pos hrow']
      rfl
    · have hrow' : ¬ 0 < (screen.withVersion version).row.val := hrow
      rw [if_neg hrow, if_neg hrow']
      rfl

theorem print?_withVersion (code : UInt8) :
    (screen.withVersion version).print? code =
      (screen.print? code).map (·.withVersion version) := by
  have herase : (screen.withVersion version).erase? =
      screen.erase?.map (·.withVersion version) := by
    rw [erase?, erase?, back?_withVersion, Option.map_map, Option.map_map]
    rfl
  have hrubout : (screen.withVersion version).rubout = screen.rubout := rfl
  simp only [print?, newLine_withVersion, put_withVersion, herase, hrubout]
  split_ifs <;> rfl

end

/-- The version has no influence on what is shown. -/
theorem alike_write {first second : Screen} (h : first.Alike second) (code : UInt8) :
    (first.write code).2.Alike (second.write code).2 := by
  rw [alike_iff.mp h]
  unfold write
  rw [print?_withVersion]
  cases first.print? code <;> rfl

end AppleOne.Screen
