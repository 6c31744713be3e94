import AppleOne.Proofs.Machine.Drive
import AppleOne.Proofs.Machine.Sound
import AppleOne.Proofs.Wire.SaveFile

/-!
# Resuming a saved machine

A machine that loads what another one saved goes on in its place. Three facts make up the
argument: a save file is read as it was written, what is put into a machine of the same
layout is all there was to the core of a sound machine, and what is not saved has no
influence on what comes after.

## Main definitions

* `Snapshot.unversioned`: a snapshot but for the version of the screen.

## Main results

* `Machine.snapshot_restore`, `Machine.alike_restore`: a restored machine has what was saved.
* `Machine.loaded_machine_resumes`: saving and loading resumes the same computation.
-/

namespace AppleOne

/-- The state of a screen but for its version. -/
def Screen.State.unversioned (state : State) : State := { state with version := 0 }

/-- A snapshot but for the version of the screen. -/
def Snapshot.unversioned (snapshot : Snapshot) : Snapshot :=
  { snapshot with screen := snapshot.screen.map Screen.State.unversioned }

theorem Screen.state_unversioned_of_alike {first second : Screen} (h : first.Alike second) :
    first.state.unversioned = second.state.unversioned := by
  rw [alike_iff.mp h]
  rfl

namespace Machine

/-- Machines whose cores agree in registers, mappings and what is to be seen have the same
snapshot. -/
theorem snapshot_unversioned_congr {first second : Machine}
    (hregisters : first.core.registers = second.core.registers)
    (hmappings : first.core.mappings = second.core.mappings)
    (hscreen : first.screen.state.unversioned = second.screen.state.unversioned) :
    first.snapshot.unversioned = second.snapshot.unversioned := by
  have hbus : first.bus.mappings = second.bus.mappings := hmappings
  have hbanks : first.bus.banks = second.bus.banks :=
    congrArg (List.filterMap fun mapping : Mapping => mapping.component.bank?) hbus
  have hpia : first.pia = second.pia := by
    rw [pia, pia, Bus.pia?_eq, Bus.pia?_eq, hbus]
  have hregisters : first.runner.cpu.registers = second.runner.cpu.registers := hregisters
  simp only [snapshot, Snapshot.unversioned, hbanks, hpia, hregisters, Option.map_some, hscreen]

theorem snapshot_unversioned_of_alike {first second : Machine} (h : first.core.Alike second.core) :
    first.snapshot.unversioned = second.snapshot.unversioned :=
  snapshot_unversioned_congr h.registers h.mappings (Screen.state_unversioned_of_alike h.screen)

/-- The layout is decided by how much RAM fits and by whether there is RAM for BASIC. -/
theorem layout_congr {config other : Config}
    (hram : min config.ramSize Config.maxRamSize = min other.ramSize Config.maxRamSize)
    (hbasic : config.basic = other.basic) : layout config = layout other := by
  simp only [layout, ramMapping?, basicMapping?, hram, hbasic]

/-! ## Loading -/

section Restore

variable {layout : List Mapping} {machine other : Machine}

theorem mappings_restore (hdistinct : Mapping.Distinct layout) (h : machine.core.Sound layout)
    (hother : other.core.Sound layout) (now : Nat) :
    (other.restore now machine.snapshot).core.mappings = machine.core.mappings :=
  mappings_restore_snapshot now (hother.layout.trans h.layout.symm) (h.distinct hdistinct) h.settled

theorem screen_restore (h : machine.core.Sound layout) (other : Machine) (now : Nat) :
    (other.restore now machine.snapshot).screen =
      { machine.screen with
        rubout := other.screen.rubout
        version := max other.screen.version machine.screen.version + 1 } :=
  Screen.restore_state other.screen h.printable

/-- A restored machine has the snapshot that was saved. -/
theorem snapshot_restore (hdistinct : Mapping.Distinct layout) (h : machine.core.Sound layout)
    (hother : other.core.Sound layout) (now : Nat) :
    (other.restore now machine.snapshot).snapshot.unversioned = machine.snapshot.unversioned := by
  refine snapshot_unversioned_congr rfl (mappings_restore hdistinct h hother now) ?_
  rw [screen_restore h]
  rfl

/-- A restored machine that treats rubout in the same way has the core that was saved, but
for what has no influence. -/
theorem alike_restore (hdistinct : Mapping.Distinct layout) (h : machine.core.Sound layout)
    (hother : other.core.Sound layout) (hrubout : other.screen.rubout = machine.screen.rubout)
    (now : Nat) : (other.restore now machine.snapshot).core.Alike machine.core := by
  refine ⟨rfl, mappings_restore hdistinct h hother now, ?_⟩
  show (other.restore now machine.snapshot).screen.Alike machine.screen
  rw [screen_restore h, hrubout]
  rfl

/-- The document of a save file is loaded. -/
theorem load_saveFile (machine other : Machine) (saved : Time) (now : Nat) (form : Json.Form) :
    ∃ level text, other.load now (form.apply (machine.saveFile saved).encode) =
      (.ok (), (other.restore now machine.snapshot).note level text) := by
  have hrow : machine.screen.row.val < UInt64.size :=
    Nat.lt_trans machine.screen.row.isLt (by decide)
  have hcolumn : machine.screen.column.val < UInt64.size :=
    Nat.lt_trans machine.screen.column.isLt (by decide)
  have hscreen : (machine.saveFile saved).state.screen = some machine.screen.state := rfl
  have hread := SaveFile.ofJson_encode rfl hscreen hrow hcolumn form
  unfold load
  rw [hread]
  exact ⟨_, _, rfl⟩

end Restore

/-! ## Going on -/

variable {config₁ config₂ : Config} {now₁ now₂ : Nat} {fresh₁ fresh₂ : Machine}

/-- Saving and loading resumes the same computation. The document that any machine saves is
loaded by every machine with the same banks, whatever happened to it before, and then has
the same snapshot. If both treat rubout in the same way, the two machines keep having the
same snapshot when they are driven by the same steps and keys, however these are cut into
slices and whatever else is asked of the machines in between. -/
theorem loaded_machine_resumes (hbuilt₁ : build? config₁ now₁ = .ok fresh₁)
    (hbuilt₂ : build? config₂ now₂ = .ok fresh₂)
    (hram : min config₁.ramSize Config.maxRamSize = min config₂.ramSize Config.maxRamSize)
    (hbasic : config₁.basic = config₂.basic) (actions₁ actions₂ : List Action)
    (saved loaded : Time) (form : Json.Form) :
    ∃ file copy, ((fresh₁.run actions₁).handle saved .saveState).1 = .saveState file ∧
      (fresh₂.run actions₂).handle loaded (.loadState (form.apply file.encode)) = (.ok, copy) ∧
      copy.snapshot.unversioned = (fresh₁.run actions₁).snapshot.unversioned ∧
      ((fresh₂.run actions₂).screen.rubout = (fresh₁.run actions₁).screen.rubout →
        ∀ drive₁ drive₂, (∀ action ∈ drive₁, action.drives = true) →
          (∀ action ∈ drive₂, action.drives = true) →
          copy.script drive₂ = (fresh₁.run actions₁).script drive₁ →
          (copy.run drive₂).snapshot.unversioned =
            ((fresh₁.run actions₁).run drive₁).snapshot.unversioned) := by
  have hdistinct := distinct_layout config₁
  have hsaved := sound_run hbuilt₁ actions₁
  have hother := sound_run hbuilt₂ actions₂
  -- the other machine was built with the layout of the first
  rw [← layout_congr hram hbasic] at hother
  obtain ⟨level, text, hload⟩ :=
    load_saveFile (fresh₁.run actions₁) (fresh₂.run actions₂) saved loaded.micros form
  refine ⟨_, ((fresh₂.run actions₂).restore loaded.micros (fresh₁.run actions₁).snapshot).note
    level text, rfl, ?_, snapshot_restore hdistinct hsaved hother loaded.micros, ?_⟩
  · simp only [handle, hload]
  · -- both cores go through the same script, and start alike
    intro hrubout drive₁ drive₂ hdrive₁ hdrive₂ hscript
    refine snapshot_unversioned_of_alike ?_
    rw [core_run_of_drives hdrive₁, core_run_of_drives hdrive₂, ← hscript]
    exact alike_foldl_stimulate (alike_restore hdistinct hsaved hother hrubout loaded.micros) _

/-- A machine takes a key and runs a slice of two steps. Another one, with other bytes in
its RAM, loads what the first has saved, takes the key under its other name and is stepped
twice. -/
theorem loaded_machine_resumes_in_steps :
    ∃ fresh₁ fresh₂ file copy, build? { batch := 2 } 0 = .ok fresh₁ ∧ build? {} 5 = .ok fresh₂ ∧
      (fresh₁.handle ⟨1, 1⟩ .saveState).1 = .saveState file ∧
      (fresh₂.run [.flash "ram" [0x00, 0x00, 0xEA]]).handle ⟨6, 2⟩
        (.loadState file.encode.canonical) = (.ok, copy) ∧
      (copy.run [.command ⟨7, 3⟩ (.keyDown "A"), .command ⟨8, 3⟩ .step,
        .command ⟨9, 3⟩ .debugInfo, .command ⟨9, 3⟩ .step]).snapshot.unversioned =
      (fresh₁.run [.command ⟨1, 1⟩ (.keyDown "a"), .command ⟨1, 1⟩ .start,
        .slice 2]).snapshot.unversioned := by
  obtain ⟨fresh₁, hbuilt₁⟩ := exists_build? { batch := 2 } 0
  obtain ⟨fresh₂, hbuilt₂⟩ := exists_build? {} 5
  have hfirst : ((build? { batch := 2 } 0).toOption.map fun fresh =>
      (fresh.screen.rubout, fresh.script [.command ⟨1, 1⟩ (.keyDown "a"), .command ⟨1, 1⟩ .start,
        .slice 2])) = some (true, [.key 0x41, .instruction, .instruction]) := by
    decide +kernel
  have hsecond : ((build? {} 5).toOption.map fun fresh =>
      (fresh.run [.flash "ram" [0x00, 0x00, 0xEA]]).screen.rubout) = some true := by
    decide +kernel
  rw [hbuilt₁] at hfirst
  rw [hbuilt₂] at hsecond
  obtain ⟨hrubout₁, hscript⟩ := Prod.mk.inj (Option.some.inj hfirst)
  have hrubout₂ := Option.some.inj hsecond
  obtain ⟨file, copy, hfile, hload, -, hresumes⟩ := loaded_machine_resumes hbuilt₁ hbuilt₂ rfl rfl
    [] [.flash "ram" [0x00, 0x00, 0xEA]] ⟨1, 1⟩ ⟨6, 2⟩ .canonical
  exact ⟨fresh₁, fresh₂, file, copy, hbuilt₁, hbuilt₂, hfile, hload,
    hresumes (hrubout₂.trans hrubout₁.symm) _ _ (by decide) (by decide) hscript.symm⟩

end Machine

end AppleOne
