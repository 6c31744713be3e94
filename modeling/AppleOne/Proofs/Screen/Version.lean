import AppleOne.Proofs.Screen.Printable

/-!
# The version of the screen

Every visible change raises the version by one, and a restore raises it beyond both the
version of the screen and the one that was saved. The version has 64 bits, so this holds
only as long as it does not come to its end: the numbers that it is counted up to are taken
here as they are, and if all of them fit, a screen that has changed has a greater version
than before.

## Main definitions

* `Screen.writeAll`: writing several codes.
* `Screen.counts`, `Screen.restoreCount`: the numbers that the version is counted up to.

## Main results

* `Screen.writeAll_of_counts_eq_nil`: without a count the screen is the same.
* `Screen.version_lt_writeAll`: with a count the version is greater.
* `Screen.version_lt_restore_iff`: when a restore raises the version.
-/

namespace AppleOne.Screen

/-- The screen after several character codes. -/
def writeAll (screen : Screen) (codes : List UInt8) : Screen :=
  codes.foldl (fun screen code => (screen.write code).2) screen

/-- The numbers that the version is counted up to when codes are written, one for every change
of the screen. They are not cut to 64 bits. -/
def counts (screen : Screen) : List UInt8 → List Nat
  | [] => []
  | code :: rest =>
    let (changed, written) := screen.write code
    (if changed then [screen.version.toNat + 1] else []) ++ written.counts rest

/-- The number that the version is counted up to by a restore, not cut to 64 bits. -/
def restoreCount (screen : Screen) (state : State) : Nat :=
  max screen.version.toNat state.version.toNat + 1

variable {screen : Screen} {codes : List UInt8}

/-- Printing leaves the version to be raised. -/
theorem version_print? {code : UInt8} {printed : Screen} (h : screen.print? code = some printed) :
    printed.version = screen.version := by
  have hprint := screen.print?_withVersion screen.version code
  have hsame : screen.withVersion screen.version = screen := rfl
  rw [hsame, h, Option.map_some, Option.some.injEq] at hprint
  exact (congrArg version hprint :)

/-- A code changes nothing, or it raises the version. -/
theorem write_cases (screen : Screen) (code : UInt8) :
    screen.write code = (false, screen) ∨
    (screen.write code).1 = true ∧ (screen.write code).2.version = screen.version + 1 := by
  unfold write
  cases hprinted : screen.print? code with
  | none => exact .inl rfl
  | some printed => exact .inr ⟨rfl, congrArg (· + 1) (version_print? hprinted)⟩

/-- A version is raised if the number that it is counted up to fits. -/
theorem toNat_version_add_one {version : UInt64} (h : version.toNat + 1 < UInt64.size) :
    (version + 1).toNat = version.toNat + 1 :=
  (UInt64.toNat_add version 1).trans (Nat.mod_eq_of_lt h)

/-- Without a count the screen stays as it is. -/
theorem writeAll_of_counts_eq_nil (h : screen.counts codes = []) :
    screen.writeAll codes = screen := by
  induction codes generalizing screen with
  | nil => rfl
  | cons code rest ih =>
    rcases screen.write_cases code with hwrite | ⟨hchanged, -⟩
    · simp only [counts, hwrite, Bool.false_eq_true, if_false, List.nil_append] at h
      rw [writeAll, List.foldl_cons, hwrite]
      exact ih h
    · simp [counts, hchanged] at h

/-- If all counts fit, a screen that has changed has a greater version. -/
theorem version_lt_writeAll (hcounts : ∀ count ∈ screen.counts codes, count < UInt64.size)
    (hne : screen.counts codes ≠ []) : screen.version < (screen.writeAll codes).version := by
  induction codes generalizing screen with
  | nil => exact absurd rfl hne
  | cons code rest ih =>
    rcases screen.write_cases code with hwrite | ⟨hchanged, hversion⟩
    · simp only [counts, hwrite, Bool.false_eq_true, if_false, List.nil_append] at hcounts hne
      rw [writeAll, List.foldl_cons, hwrite]
      exact ih hcounts hne
    · simp only [counts, hchanged, if_true, List.singleton_append, List.forall_mem_cons] at hcounts
      have hraised : screen.version < (screen.write code).2.version := by
        rw [hversion, UInt64.lt_iff_toNat_lt, toNat_version_add_one hcounts.1]
        exact Nat.lt_succ_self _
      -- the codes that follow leave the screen as it is or raise the version further
      by_cases hrest : (screen.write code).2.counts rest = []
      · have hsame := writeAll_of_counts_eq_nil hrest
        rw [writeAll] at hsame ⊢
        rw [List.foldl_cons, hsame]
        exact hraised
      · exact UInt64.lt_trans hraised (ih hcounts.2 hrest)

/-- A restore raises the version beyond that of the screen and that of the state, unless one of
them is the last that there is. -/
theorem version_lt_restore_iff (screen : Screen) (state : State) :
    screen.version < (screen.restore state).version ∧
        state.version < (screen.restore state).version ↔
      screen.restoreCount state < UInt64.size := by
  have hmax : (max screen.version state.version).toNat =
      max screen.version.toNat state.version.toNat := by
    have hlarger : max screen.version state.version =
        if screen.version ≤ state.version then state.version else screen.version := rfl
    rw [hlarger, Nat.max_def, apply_ite UInt64.toNat]
    rfl
  have hversion : (screen.restore state).version.toNat =
      screen.restoreCount state % UInt64.size := by
    rw [restoreCount, ← hmax]
    exact UInt64.toNat_add _ 1
  have hown : screen.version.toNat < UInt64.size := screen.version.toNat_lt
  have hstate : state.version.toNat < UInt64.size := state.version.toNat_lt
  simp only [UInt64.lt_iff_toNat_lt, hversion, restoreCount]
  simp only [UInt64.size] at hown hstate ⊢
  omega

end AppleOne.Screen
