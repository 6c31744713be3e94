import AppleOne.Proofs.Screen.Version

/-!
# Rubout

If rubout is enabled, a rubout takes back the character before the cursor: the cursor goes
back by one cell in reading order, over the beginning of a row to the end of the row above,
and that cell becomes blank. A character that is printed over a blank, and does not make the
rows move up, is undone by this, and so is a text of any length by as many rubouts. What is not
undone is the version, which counts both the characters and the rubouts.

## Main definitions

* `Screen.Types`, `Screen.TakesBack`: the codes that print and those that erase.
* `Screen.Printed`, `Screen.TakenBack`: what one code of either kind does.

## Main results

* `Screen.Printed.undo`: a rubout undoes a character.
* `Screen.writeAll_append_rubouts`: rubouts undo a text.
* `Screen.rubout_undoes_printing`: the same with the version as a number, and what a single
  rubout does.
-/

namespace AppleOne.Screen

/-- A code that prints a character whether rubout is enabled or not. -/
def Types (code : UInt8) : Prop :=
  (0x20 ≤ code ∧ code ≤ 0x5E) ∨ (0x60 ≤ code ∧ code ≤ 0x7E)

/-- A code that takes back a character if rubout is enabled. -/
def TakesBack (code : UInt8) : Prop := code = ruboutCode ∨ code = backspaceCode

instance (code : UInt8) : Decidable (Types code) :=
  inferInstanceAs (Decidable (_ ∨ _))

instance (code : UInt8) : Decidable (TakesBack code) :=
  inferInstanceAs (Decidable (_ ∨ _))

/-- What becomes of a screen by a character that is printed. -/
structure Printed (screen printed : Screen) : Prop where
  position : printed.position = screen.position + 1
  cellAt : ∀ place ≠ screen.position, printed.cellAt place = screen.cellAt place
  rubout : printed.rubout = screen.rubout

/-- What becomes of a screen by a rubout that takes back a character. -/
structure TakenBack (screen erased : Screen) : Prop where
  position : erased.position + 1 = screen.position
  cellAt : ∀ place, erased.cellAt place =
    if place = erased.position then blank else screen.cellAt place
  rubout : erased.rubout = screen.rubout
  version : erased.version = screen.version + 1

variable {screen : Screen} {code : UInt8}

/-! ## One code -/

theorem print?_of_types (screen : Screen) (h : Types code) :
    ∃ glyph, screen.print? code = some (screen.put glyph) := by
  have hreturn : code ≠ returnCode := by
    rintro rfl
    exact absurd h (by decide)
  have hback : ¬ (code = ruboutCode ∨ code = backspaceCode) := by
    rintro (rfl | rfl)
    · exact absurd h (by decide)
    · exact absurd h (by decide)
  have hprintable : 0x20 ≤ code ∧ code ≤ 0x7E := by
    simp only [Types, UInt8.le_iff_toNat_le, UInt8.reduceToNat] at h ⊢
    omega
  obtain ⟨glyph, hglyph⟩ := Option.isSome_iff_exists.mp ((isSome_glyph? code).mpr hprintable)
  refine ⟨glyph, ?_⟩
  rw [print?_eq, if_neg hreturn, if_neg fun hrubout => hback hrubout.2, hglyph, Option.map_some]

theorem print?_of_takesBack (hrubout : screen.rubout = true) (h : TakesBack code) :
    screen.print? code = screen.erase? := by
  have hreturn : code ≠ returnCode := by
    rcases h with rfl | rfl
    · decide
    · decide
  rw [print?_eq, if_neg hreturn, if_pos ⟨hrubout, h⟩]

/-- A character is printed at the cursor. -/
theorem printed_write (screen : Screen) (h : Types code)
    (hroom : screen.position + 1 < columns * rows) :
    Printed screen (screen.write code).2 ∧
      (screen.write code).2.version = screen.version + 1 := by
  obtain ⟨glyph, hprint⟩ := screen.print?_of_types h
  have hwrite : (screen.write code).2 = (screen.put glyph).touch := by rw [write, hprint]
  have hversion : (screen.put glyph).version = screen.version := version_print? hprint
  obtain ⟨hposition, hcells, hrubout⟩ := position_put glyph hroom
  rw [hwrite]
  refine ⟨⟨hposition, fun place hplace => ?_, hrubout⟩, congrArg (· + 1) hversion⟩
  have hset : (screen.put glyph).touch.cellAt place = (screen.setCell glyph).cellAt place :=
    cell_congr hcells
  rw [hset, cellAt_setCell, if_neg hplace]

/-- A rubout takes back a character, unless the cursor is in the first cell. -/
theorem write_takesBack_cases (hrubout : screen.rubout = true) (h : TakesBack code) :
    (screen.position = 0 ∧ screen.write code = (false, screen)) ∨
      (0 < screen.position ∧ (screen.write code).1 = true ∧
        TakenBack screen (screen.write code).2) := by
  have hprint := print?_of_takesBack hrubout h
  rcases screen.erase?_cases with ⟨hfirst, hnone⟩ | ⟨erased, herased, hposition, hcells, hsame⟩
  · exact .inl ⟨hfirst, by rw [write, hprint, hnone]⟩
  · have hwrite : screen.write code = (true, erased.touch) := by rw [write, hprint, herased]
    have hversion : erased.version = screen.version := version_print? (hprint.trans herased)
    rw [hwrite]
    exact .inr ⟨by omega, rfl, hposition, hcells, hsame, congrArg (· + 1) hversion⟩

/-! ## Undoing -/

/-- A character that was printed over a blank is undone. -/
theorem Printed.undo {printed erased : Screen} (h : Printed screen printed)
    (hblank : screen.cellAt screen.position = blank) (hback : TakenBack printed erased) :
    erased = screen.withVersion (printed.version + 1) := by
  have hposition : erased.position = screen.position :=
    Nat.succ.inj (hback.position.trans h.position)
  have hcellAt (place : Nat) : erased.cellAt place = screen.cellAt place := by
    rw [hback.cellAt, hposition]
    split
    · next hplace => rw [hplace, hblank]
    · next hplace => exact h.cellAt place hplace
  have hcells : erased.cells = screen.cells := by
    refine cells_eq_of_cell fun row _ column hcolumn => ?_
    rw [cell_eq_cellAt hcolumn, cell_eq_cellAt hcolumn, hcellAt]
  obtain ⟨hrow, hcolumn⟩ := cursor_eq_of_position hposition
  have hrubout := hback.rubout.trans h.rubout
  have hversion := hback.version
  cases erased
  cases screen
  simp only at hcells hrow hcolumn hrubout hversion
  rw [withVersion, hcells, hrow, hcolumn, hrubout, hversion]

/-- The version has no part in what was printed. -/
theorem Printed.withVersion {printed : Screen} (h : Printed screen printed) (version : UInt64) :
    Printed screen (printed.withVersion version) :=
  ⟨h.position, h.cellAt, h.rubout⟩

/-- The cells from the cursor on are the same as before. -/
theorem Printed.cellAt_ahead {printed : Screen} (h : Printed screen printed) (distance : Nat) :
    printed.cellAt (printed.position + distance) =
      screen.cellAt (screen.position + (distance + 1)) := by
  have hplace : printed.position + distance = screen.position + (distance + 1) := by
    rw [h.position]
    omega
  rw [hplace]
  exact h.cellAt _ (by omega)

/-- Whatever the version has become, a rubout undoes a character that was printed over a
blank. -/
theorem Printed.write_takesBack {printed : Screen} (h : Printed screen printed)
    (hrubout : screen.rubout = true) (hblank : screen.cellAt screen.position = blank)
    (hcode : TakesBack code) :
    (printed.write code).2 = screen.withVersion (printed.version + 1) := by
  rcases write_takesBack_cases (h.rubout.trans hrubout) hcode with
    ⟨hfirst, -⟩ | ⟨-, -, hback⟩
  · -- the cursor is not in the first cell after a character
    have hposition := h.position
    omega
  · exact h.undo hblank hback

/-- A text that is printed over blanks, without making the rows move up, is undone by as many
rubouts. -/
theorem writeAll_append_rubouts {codes rubouts : List UInt8} (hrubout : screen.rubout = true)
    (hcodes : ∀ code ∈ codes, Types code) (hrubouts : ∀ code ∈ rubouts, TakesBack code)
    (hlength : rubouts.length = codes.length)
    (hroom : screen.position + codes.length < columns * rows)
    (hblank : ∀ i < codes.length, screen.cellAt (screen.position + i) = blank) :
    screen.writeAll (codes ++ rubouts) =
      screen.withVersion (screen.version + UInt64.ofNat (2 * codes.length)) := by
  -- the last rubout undoes the first character, when the rest has been undone
  induction codes generalizing screen rubouts with
  | nil =>
    obtain rfl := List.length_eq_zero_iff.mp hlength
    exact (congrArg screen.withVersion (UInt64.add_zero screen.version)).symm
  | cons code rest ih =>
    rw [List.length_cons] at hroom hblank hlength
    have hne : rubouts ≠ [] := List.ne_nil_of_length_eq_add_one hlength
    obtain ⟨inner, last, rfl⟩ : ∃ inner last, rubouts = inner ++ [last] :=
      ⟨_, _, (List.dropLast_concat_getLast hne).symm⟩
    rw [List.length_append, List.length_singleton] at hlength
    obtain ⟨hcode, hrest⟩ := List.forall_mem_cons.mp hcodes
    obtain ⟨hinner, hlast⟩ := List.forall_mem_append.mp hrubouts
    obtain ⟨hprinted, hversion⟩ := screen.printed_write hcode (by omega)
    have hundone := ih (hprinted.rubout.trans hrubout) hrest hinner (by omega)
      (by rw [hprinted.position]; omega)
      (fun i hi => (hprinted.cellAt_ahead i).trans (hblank (i + 1) (by omega)))
    have hall : screen.writeAll (code :: rest ++ (inner ++ [last])) =
        (((screen.write code).2.writeAll (rest ++ inner)).write last).2 := by
      simp only [writeAll, List.cons_append, List.foldl_cons, List.foldl_append, List.foldl_nil]
    rw [hall, hundone, (hprinted.withVersion _).write_takesBack hrubout
      (hblank 0 (Nat.succ_pos _)) (hlast last (List.mem_singleton_self last))]
    refine congrArg screen.withVersion ?_
    have hcount : 2 * (rest.length + 1) = 1 + 2 * rest.length + 1 := by omega
    rw [List.length_cons, hcount, UInt64.ofNat_add, UInt64.ofNat_add]
    simp only [Screen.withVersion, hversion, UInt64.add_assoc]
    rfl

/-- A rubout undoes what was printed, the version apart, which is raised for every character and
for every rubout as long as it fits. It changes nothing if the cursor is in the first cell, and
otherwise it moves the cursor back by one cell and blanks that cell. -/
theorem rubout_undoes_printing (screen : Screen) (hrubout : screen.rubout = true) :
    (∀ codes rubouts : List UInt8, (∀ code ∈ codes, Types code) →
      (∀ code ∈ rubouts, TakesBack code) → rubouts.length = codes.length →
      screen.position + codes.length < columns * rows →
      (∀ i < codes.length, screen.cellAt (screen.position + i) = blank) →
        screen.writeAll (codes ++ rubouts) =
          screen.withVersion (screen.version + UInt64.ofNat (2 * codes.length)) ∧
        ((screen.writeAll (codes ++ rubouts)).version.toNat =
            screen.version.toNat + 2 * codes.length ↔
          screen.version.toNat + 2 * codes.length < UInt64.size)) ∧
    ∀ code, TakesBack code →
      ((screen.write code).2 = screen ↔ screen.row = 0 ∧ screen.column = 0) ∧
      ((screen.write code).1 = false ↔ screen.row = 0 ∧ screen.column = 0) ∧
      (¬ (screen.row = 0 ∧ screen.column = 0) →
        TakenBack screen (screen.write code).2) := by
  refine ⟨fun codes rubouts hcodes hrubouts hlength hroom hblank => ?_, fun code hcode => ?_⟩
  · have hundone := writeAll_append_rubouts hrubout hcodes hrubouts hlength hroom hblank
    rw [hundone]
    refine ⟨rfl, ?_⟩
    have hsum : (screen.version + UInt64.ofNat (2 * codes.length)).toNat =
        (screen.version.toNat + 2 * codes.length) % UInt64.size := by
      rw [UInt64.toNat_add, UInt64.toNat_ofNat', Nat.add_mod_mod]
    simp only [withVersion, hsum]
    exact Nat.mod_eq_iff_lt (by decide)
  · rw [← position_eq_zero_iff]
    rcases write_takesBack_cases hrubout hcode with ⟨hfirst, hwrite⟩ | ⟨hpos, htrue, hback⟩
    · rw [hwrite]
      exact ⟨by simp [hfirst], by simp [hfirst], fun hne => absurd hfirst hne⟩
    · have hne : screen.position ≠ 0 := Nat.ne_of_gt hpos
      refine ⟨?_, by simp [htrue, hne], fun _ => hback⟩
      refine iff_of_false (fun hsame => ?_) hne
      have hposition := hback.position
      rw [hsame] at hposition
      omega

/-- Two characters over the end of a row and back. -/
theorem rubout_undoes_printing_over_row :
    let screen := (empty true).restore ⟨["HELLO"], 0, 39, 0⟩
    screen.rubout = true ∧
      screen.writeAll ([0x41, 0x62] ++ [0x5F, 0x08]) = screen.withVersion 5 := by
  intro screen
  have hundo := (rubout_undoes_printing screen rfl).1 [0x41, 0x62] [0x5F, 0x08]
    (by decide +kernel) (by decide +kernel) rfl (by decide) (by decide +kernel)
  exact ⟨rfl, hundo.1⟩

/-- The last version is followed by the first one, and so a character and a rubout do not raise
it. -/
theorem rubout_lowers_last_version :
    let screen := (empty true).restore ⟨[], 0, 0, 0xFFFFFFFFFFFFFFFE⟩
    screen.rubout = true ∧ Types 0x41 ∧ TakesBack 0x5F ∧
      screen.position + 1 < columns * rows ∧ screen.cellAt screen.position = blank ∧
      screen.version.toNat + 1 = UInt64.size ∧
      (screen.writeAll ([0x41] ++ [0x5F])).version.toNat = 1 := by
  intro screen
  have hundone : screen.writeAll ([0x41] ++ [0x5F]) = screen.withVersion (screen.version + 2) :=
    writeAll_append_rubouts rfl (by decide +kernel) (by decide +kernel) rfl (by decide)
      (by decide +kernel)
  refine ⟨rfl, by decide, by decide, by decide, by decide +kernel, by decide, ?_⟩
  rw [hundone]
  decide

end AppleOne.Screen
