import AppleOne.Proofs.Machine.Display
import AppleOne.Proofs.Screen.Version
import AppleOne.Proofs.Wire.SaveFile

/-!
# Mirrors of the screen

A host that keeps the screen of the latest video event has a mirror of it. At the end of every
slice the machine compares one number, the version that it told the host of, with the version
of the screen. That suffices because the version tells screens apart: as long as it does not
come to its end, whatever changes the screen raises it, be it a slice, a step command or a
load. So between slices the mirror shows the screen itself, or an older version of it, and
the slice that follows makes up for it.

A load raises the version beyond the one in the document, which may be any number of 64 bits.
If that is the last one, the version starts again from zero, and the load may go unnoticed.

## Main definitions

* `Machine.mirror`: the screen that a host has seen.
* `Machine.counts`, `Machine.sessionCounts`: what the version is counted up to.
* `Machine.Mirrors`: the invariant.

## Main results

* `Machine.screen_act_of_counts_eq_nil`, `Machine.version_lt_act`: what changes the screen
  raises the version.
* `Machine.screens_slice`: the video event of a slice.
* `Machine.mirrors_run`: the invariant holds throughout a session.
* `Machine.mirror_after_slice`: after a slice the mirror shows the screen.
* `Machine.load_noticed`: when a load is noticed, and `Machine.load_unnoticed`, when not.
-/

namespace AppleOne

/-- The screen that an event shows. -/
def Event.screen? : Event → Option Screen.State
  | videoUpdated state => some state
  | _ => none

namespace Machine

/-! ## What becomes of the screen -/

/-- The screen of a save file that an action loads. -/
def loadedScreen? : Action → Option Screen.State
  | .command _ (.loadState document) =>
    match SaveFile.ofJson document with
    | .ok file => file.state.screen
    | .error _ => none
  | _ => none

/-- What the version of the screen is counted up to in the course of an action. -/
def counts (machine : Machine) (action : Action) : List Nat :=
  match loadedScreen? action with
  | some state => [machine.screen.restoreCount state]
  | none => machine.screen.counts (machine.characters action)

/-- What the version of the screen is counted up to in the course of a session. -/
def sessionCounts (machine : Machine) : List Action → List Nat
  | [] => []
  | action :: rest => machine.counts action ++ (machine.act action).sessionCounts rest

theorem sessionCounts_append (machine : Machine) (first second : List Action) :
    machine.sessionCounts (first ++ second) =
      machine.sessionCounts first ++ (machine.run first).sessionCounts second := by
  induction first generalizing machine with
  | nil => rfl
  | cons action rest ih =>
    rw [List.cons_append, sessionCounts, sessionCounts, ih, List.append_assoc, run_cons]

variable {machine : Machine} {action : Action}

/-- The screen, and the version of it that the host was told of. -/
def display (machine : Machine) : Screen × UInt64 := (machine.screen, machine.reportedVersion)

theorem display_onBank (machine : Machine) (id : String)
    (act : Bank → Except FlashRefusal Nat × Bank × List Note) :
    (machine.onBank id act).2.display = machine.display := by
  obtain ⟨bus, hacted⟩ := machine.exists_onBank id act
  rw [hacted]
  rfl

theorem display_flashRom (machine : Machine) (now : Nat) (payload : List UInt8) :
    (machine.flashRom now payload).2.display = machine.display := by
  have hflash : (machine.flash romName payload).2.display = machine.display :=
    display_onBank machine romName _
  rcases machine.flashRom_cases now payload with hsame | hreset
  · rw [hsame, hflash]
  · -- a reset leaves the screen
    rw [hreset]
    exact hflash

theorem display_pressKey (machine : Machine) (key : String) :
    (machine.pressKey key).display = machine.display := by
  obtain ⟨bus, hpressed⟩ := machine.exists_pressKey key
  rw [hpressed]
  rfl

/-- A load puts the saved screen in place of the present one. -/
theorem screen_loadState (machine : Machine) (time : Time) (document : Json) :
    (machine.handle time (.loadState document)).2.screen =
      match loadedScreen? (.command time (.loadState document)) with
      | some state => machine.screen.restore state
      | none => machine.screen := by
  cases hfile : SaveFile.ofJson document with
  | error reason =>
    rw [handle_loadState_of_error hfile]
    simp only [loadedScreen?, hfile]
    rfl
  | ok file =>
    obtain ⟨text, hloaded⟩ := handle_loadState_of_ok hfile machine time
    rw [hloaded]
    simp only [loadedScreen?, hfile]
    rfl

/-- Between machine steps the screen changes only if one is loaded. -/
theorem screen_act_of_not_executes (h : action.executes = false) (machine : Machine) :
    (machine.act action).screen.state =
      match loadedScreen? action with
      | some state => (machine.screen.restore state).state
      | none => machine.screen.state := by
  cases action with
  | command time command =>
    -- the screen is a part of what instructions work on
    cases command using Command.core_cases with
    | leaves command hleaves =>
      have hscreen : (machine.act (.command time command)).screen = machine.screen :=
        congrArg Core.screen (core_handle_of_leavesCore hleaves machine time)
      rw [hscreen]
      cases command with
      | loadState document => cases hleaves
      | _ => rfl
    | keyDown key =>
      exact congrArg (·.1.state) (display_pressKey machine key)
    | loadState document =>
      rw [act, screen_loadState]
      split <;> rfl
    | setRubout enabled => rfl
    | setProfiling enabled => rfl
    | reset => rfl
    | step => cases h
  | slice now => cases h
  | reset now => rfl
  | flash id payload => exact congrArg (·.1.state) (display_onBank machine id _)
  | flashJson id payload => exact congrArg (·.1.state) (display_onBank machine id _)
  | flashRom now payload => exact congrArg (·.1.state) (display_flashRom machine now payload)

/-- An action restores a screen, or it writes characters to the one that is there. -/
theorem screen_act_eq (machine : Machine) (action : Action) :
    (machine.act action).screen.state =
      match loadedScreen? action with
      | some state => (machine.screen.restore state).state
      | none => (machine.screen.writeAll (machine.characters action)).state := by
  cases hexecutes : action.executes with
  | true =>
    have hnone : loadedScreen? action = none := by
      unfold loadedScreen?
      split
      · cases hexecutes
      · rfl
    rw [hnone, screen_act hexecutes]
    rfl
  | false =>
    rw [screen_act_of_not_executes hexecutes, characters, attempts_of_not_executes hexecutes]
    rfl

/-- Without a count the screen stays as it is. -/
theorem screen_act_of_counts_eq_nil (h : machine.counts action = []) :
    (machine.act action).screen.state = machine.screen.state := by
  rw [screen_act_eq]
  unfold counts at h
  split at h
  · cases h
  · rw [Screen.writeAll_of_counts_eq_nil h]

/-- If all counts fit and there is one, the version is greater than before. -/
theorem version_lt_act (hcounts : ∀ count ∈ machine.counts action, count < UInt64.size)
    (hne : machine.counts action ≠ []) :
    machine.screen.version < (machine.act action).screen.version := by
  have hversion := congrArg Screen.State.version (machine.screen_act_eq action)
  unfold counts at hcounts hne
  split at hcounts
  · next state hloaded =>
    rw [hloaded] at hversion
    have hafter : (machine.act action).screen.version = (machine.screen.restore state).version :=
      hversion
    rw [hafter]
    exact ((Screen.version_lt_restore_iff machine.screen state).mpr (hcounts _ (by simp))).1
  · next hloaded =>
    rw [hloaded] at hversion hne
    have hafter : (machine.act action).screen.version =
        (machine.screen.writeAll (machine.characters action)).version := hversion
    rw [hafter]
    exact Screen.version_lt_writeAll hcounts hne

theorem version_le_act (hcounts : ∀ count ∈ machine.counts action, count < UInt64.size) :
    machine.screen.version ≤ (machine.act action).screen.version := by
  by_cases hnil : machine.counts action = []
  · have hversion : (machine.act action).screen.version = machine.screen.version :=
      congrArg Screen.State.version (screen_act_of_counts_eq_nil hnil)
    rw [hversion]
    exact UInt64.le_refl _
  · exact UInt64.le_of_lt (version_lt_act hcounts hnil)

/-! ## Video events -/

/-- The events of an action; only slices have any. -/
def events (machine : Machine) : Action → List Event
  | .slice now => (machine.slice now).1
  | _ => []

/-- The screens that the events of an action show. -/
def screens (machine : Machine) (action : Action) : List Screen.State :=
  (machine.events action).filterMap Event.screen?

theorem screens_videoEvents (machine : Machine) :
    machine.videoEvents.1.filterMap Event.screen? =
      if machine.screen.version = machine.reportedVersion then [] else [machine.screen.state] := by
  unfold videoEvents
  split <;> rfl

theorem reportedVersion_stopEvents (machine : Machine) (now : Nat) :
    (machine.stopEvents now).2.reportedVersion = machine.reportedVersion := by
  unfold stopEvents
  split <;> rfl

theorem reportedVersion_timedEvents (machine : Machine) (now : Nat) :
    (machine.timedEvents now).2.reportedVersion = machine.reportedVersion := by
  obtain ⟨timer, htimer⟩ := machine.machine_timedEvents now
  rw [htimer]

/-- The screen with which a slice ends is the one that its machine steps have left. -/
theorem screen_slice (machine : Machine) (now : Nat) :
    (machine.act (.slice now)).screen = (machine.execute now).1.screen :=
  congrArg Core.screen (core_slice machine now)

theorem screen_stopEvents (machine : Machine) (now : Nat) :
    (machine.stopEvents now).2.screen = machine.screen :=
  congrArg Core.screen (core_stopEvents machine now)

/-- A slice tells the host of the screen with which it ends, unless the host has been told of
that version. -/
theorem screens_slice (machine : Machine) (now : Nat) :
    machine.screens (.slice now) =
      if (machine.act (.slice now)).screen.version = machine.reportedVersion then []
      else [(machine.act (.slice now)).screen.state] := by
  have hreported : (machine.execute now).1.reportedVersion = machine.reportedVersion := rfl
  have hstops := filterMap_stopEvents Event.screen? fun _ => rfl
  have htimed := filterMap_timedEvents Event.screen? fun _ => rfl
  have hlogs := filterMap_logEvents Event.screen? fun _ => rfl
  simp only [screens, events, slice, List.filterMap_append, hstops, screens_videoEvents, htimed,
    hlogs, List.nil_append, List.append_nil, reportedVersion_stopEvents, screen_stopEvents,
    hreported, screen_slice]

/-- After a slice the host has been told of the screen. -/
theorem reportedVersion_slice (machine : Machine) (now : Nat) :
    (machine.act (.slice now)).reportedVersion = (machine.act (.slice now)).screen.version := by
  have hlogs (machine : Machine) : machine.logEvents.2.reportedVersion = machine.reportedVersion :=
    rfl
  rw [screen_slice]
  simp only [act, slice, hlogs, reportedVersion_timedEvents, machine_videoEvents, screen_stopEvents]

theorem reportedVersion_handle (machine : Machine) (time : Time) (command : Command) :
    (machine.handle time command).2.reportedVersion = machine.reportedVersion := by
  cases command with
  | keyDown key => exact congrArg Prod.snd (display_pressKey machine key)
  | resumeEmulation | start =>
    simp only [handle, resume]
    split <;> rfl
  | runToAddress target =>
    simp only [handle, seek]
    split <;> rfl
  | loadState document =>
    cases hfile : SaveFile.ofJson document with
    | error reason =>
      rw [handle_loadState_of_error hfile]
      rfl
    | ok file =>
      obtain ⟨text, hloaded⟩ := handle_loadState_of_ok hfile machine time
      rw [hloaded]
      rfl
  | _ => rfl

/-- Only slices tell the host of the screen. -/
theorem reportedVersion_act (h : ∀ now, action ≠ .slice now) (machine : Machine) :
    (machine.act action).reportedVersion = machine.reportedVersion := by
  cases action with
  | command time command => exact reportedVersion_handle machine time command
  | slice now => exact absurd rfl (h now)
  | reset now => rfl
  | flash id payload => exact congrArg Prod.snd (display_onBank machine id _)
  | flashJson id payload => exact congrArg Prod.snd (display_onBank machine id _)
  | flashRom now payload => exact congrArg Prod.snd (display_flashRom machine now payload)

/-! ## Mirrors -/

/-- The screen of the latest video event of a session, or the one seen before it. -/
def mirror (machine : Machine) (seen : Screen.State) : List Action → Screen.State
  | [] => seen
  | action :: rest =>
    (machine.act action).mirror ((machine.screens action).getLastD seen) rest

/-- What a host has seen is what it was told of, and it is the screen or an older version of
it. -/
structure Mirrors (seen : Screen.State) (machine : Machine) : Prop where
  told : machine.reportedVersion = seen.version
  behind : machine.screen.state = seen ∨ seen.version < machine.screen.version

variable {seen : Screen.State} {actions : List Action}

/-- A host that was told of the present version has seen the screen. -/
theorem Mirrors.state_eq (h : Mirrors seen machine)
    (htold : machine.reportedVersion = machine.screen.version) : machine.screen.state = seen := by
  refine h.behind.resolve_right fun hlt => ?_
  rw [← h.told, htold] at hlt
  exact UInt64.lt_irrefl _ hlt

/-- The host is not told of versions to come. -/
theorem Mirrors.le (h : Mirrors seen machine) :
    machine.reportedVersion ≤ machine.screen.version := by
  rw [h.told]
  rcases h.behind with rfl | hlt
  · exact UInt64.le_refl _
  · exact UInt64.le_of_lt hlt

/-- Whatever an action does to the screen, it is what was seen before or a later version. -/
theorem Mirrors.behind_act (h : Mirrors seen machine)
    (hcounts : ∀ count ∈ machine.counts action, count < UInt64.size) :
    (machine.act action).screen.state = seen ∨
      seen.version < (machine.act action).screen.version := by
  by_cases hnil : machine.counts action = []
  · have hsame := screen_act_of_counts_eq_nil hnil
    have hversion : (machine.act action).screen.version = machine.screen.version :=
      congrArg Screen.State.version hsame
    rw [hsame, hversion]
    exact h.behind
  · have hraised := version_lt_act hcounts hnil
    rcases h.behind with rfl | hlt
    · exact .inr hraised
    · exact .inr (UInt64.lt_trans hlt hraised)

/-- The invariant is kept by every action whose counts fit. -/
theorem Mirrors.act (h : Mirrors seen machine)
    (hcounts : ∀ count ∈ machine.counts action, count < UInt64.size) :
    Mirrors ((machine.screens action).getLastD seen) (machine.act action) := by
  have hbehind := h.behind_act hcounts
  by_cases hslice : ∃ now, action = .slice now
  · -- a slice tells the host of the screen, or had no need to
    obtain ⟨now, rfl⟩ := hslice
    have htold := machine.reportedVersion_slice now
    rw [screens_slice]
    split_ifs with hversion
    · -- no event: the host was told of this version before
      exact ⟨htold.trans (hversion.trans h.told), hbehind⟩
    · exact ⟨htold, .inl rfl⟩
  · -- nothing else tells it anything
    have hother (now : Nat) : action ≠ .slice now := fun heq => hslice ⟨now, heq⟩
    have hscreens : machine.screens action = [] := by
      cases action with
      | slice now => exact absurd rfl (hother now)
      | _ => rfl
    rw [hscreens]
    exact ⟨(machine.reportedVersion_act hother).trans h.told, hbehind⟩

/-- Throughout a session whose counts fit, a host has seen the screen or an older version of
it. -/
theorem mirrors_run (h : Mirrors seen machine)
    (hcounts : ∀ count ∈ machine.sessionCounts actions, count < UInt64.size) :
    Mirrors (machine.mirror seen actions) (machine.run actions) := by
  induction actions generalizing machine seen with
  | nil => exact h
  | cons action rest ih =>
    obtain ⟨haction, hrest⟩ := List.forall_mem_append.mp hcounts
    exact ih (h.act haction) hrest

/-- While nothing is counted, a host that was told of the screen remains told of it. -/
theorem told_run (hcounts : machine.sessionCounts actions = [])
    (htold : machine.reportedVersion = machine.screen.version) :
    (machine.run actions).reportedVersion = (machine.run actions).screen.version := by
  induction actions generalizing machine with
  | nil => exact htold
  | cons action rest ih =>
    obtain ⟨haction, hrest⟩ := List.append_eq_nil_iff.mp hcounts
    refine ih hrest ?_
    by_cases hslice : ∃ now, action = .slice now
    · obtain ⟨now, rfl⟩ := hslice
      exact machine.reportedVersion_slice now
    · have hversion : (machine.act action).screen.version = machine.screen.version :=
        congrArg Screen.State.version (screen_act_of_counts_eq_nil haction)
      rw [machine.reportedVersion_act fun now heq => hslice ⟨now, heq⟩, hversion]
      exact htold

section Build

variable {config : Config} {now : Nat} {fresh : Machine}

/-- The screen of a new machine is blank, which the host need not be told. -/
theorem mirrors_build? (hbuilt : build? config now = .ok fresh) :
    Mirrors (Screen.empty false).state fresh := by
  obtain ⟨bus, -, rfl⟩ := eq_of_build? hbuilt
  exact ⟨rfl, .inl rfl⟩

/-- A host that keeps the screen of the latest video event, and has a blank one to begin with,
has the screen of the machine after every slice of a session in which the version does not come
to its end. A slice has at most one video event, and none if nothing has been written or
restored since an earlier slice, or since the machine was built. -/
theorem mirror_after_slice (hbuilt : build? config now = .ok fresh) (actions : List Action)
    (time : Nat)
    (hcounts : ∀ count ∈ fresh.sessionCounts (actions ++ [.slice time]), count < UInt64.size) :
    fresh.mirror (Screen.empty false).state (actions ++ [.slice time]) =
        (fresh.run (actions ++ [.slice time])).screen.state ∧
      ((fresh.run actions).screens (.slice time)).length ≤ 1 ∧
      ∀ earlier between, actions = earlier ++ between →
        (earlier = [] ∨ ∃ before last, earlier = before ++ [.slice last]) →
        (fresh.run earlier).sessionCounts (between ++ [.slice time]) = [] →
        (fresh.run actions).screens (.slice time) = [] := by
  refine ⟨?_, ?_, ?_⟩
  · refine ((mirrors_run (mirrors_build? hbuilt) hcounts).state_eq ?_).symm
    rw [run_append]
    exact (fresh.run actions).reportedVersion_slice time
  · rw [screens_slice]
    split_ifs <;> simp
  · rintro earlier between rfl hearlier hnone
    rw [sessionCounts_append, List.append_eq_nil_iff] at hnone
    have htold : (fresh.run earlier).reportedVersion = (fresh.run earlier).screen.version := by
      rcases hearlier with rfl | ⟨before, last, rfl⟩
      · obtain ⟨bus, -, rfl⟩ := eq_of_build? hbuilt
        rfl
      · rw [run_append]
        exact (fresh.run before).reportedVersion_slice last
    -- nothing is counted in the slice itself either
    have hslice : ((fresh.run earlier).run between).counts (.slice time) = [] :=
      (List.append_eq_nil_iff.mp hnone.2).1
    have hversion : (((fresh.run earlier).run between).act (.slice time)).screen.version =
        ((fresh.run earlier).run between).screen.version :=
      congrArg Screen.State.version (screen_act_of_counts_eq_nil hslice)
    rw [screens_slice, run_append, hversion, if_pos (told_run hnone.1 htold).symm]

/-- A program that displays two letters. -/
def letters : List Action :=
  [.flash "ram" [0x00, 0x00, 0xA9, 0x04, 0x8D, 0x13, 0xD0, 0xA9, 0xC1, 0x8D, 0x12, 0xD0,
    0xA9, 0xC2, 0x8D, 0x12, 0xD0], .command ⟨0, 0⟩ .start]

/-- The host sees both letters after one slice. -/
theorem mirror_after_slice_letters :
    ∃ fresh, build? { batch := 6 } 0 = .ok fresh ∧
      fresh.sessionCounts (letters ++ [.slice 1]) = [1, 2] ∧
      fresh.mirror (Screen.empty false).state (letters ++ [.slice 1]) =
        (fresh.run (letters ++ [.slice 1])).screen.state := by
  obtain ⟨fresh, hbuilt⟩ := exists_build? { batch := 6 } 0
  have hrun : ((build? { batch := 6 } 0).toOption.map fun fresh =>
      fresh.sessionCounts (letters ++ [.slice 1])) = some [1, 2] := by
    decide +kernel
  rw [hbuilt] at hrun
  have hcounts : fresh.sessionCounts (letters ++ [.slice 1]) = [1, 2] := Option.some.inj hrun
  refine ⟨fresh, hbuilt, hcounts, (mirror_after_slice hbuilt letters 1 ?_).1⟩
  rw [hcounts]
  decide

/-! ## Loads -/

/-- What the host was not told of before actions that do not tell it, it was not told of after
them, if their counts fit. -/
theorem untold_run (hother : ∀ action ∈ actions, ∀ now, action ≠ .slice now)
    (hcounts : ∀ count ∈ machine.sessionCounts actions, count < UInt64.size)
    (h : machine.reportedVersion < machine.screen.version) :
    (machine.run actions).reportedVersion < (machine.run actions).screen.version := by
  induction actions generalizing machine with
  | nil => exact h
  | cons action rest ih =>
    obtain ⟨haction, hrest⟩ := List.forall_mem_cons.mp hother
    obtain ⟨hfirst, hlater⟩ := List.forall_mem_append.mp hcounts
    refine ih hrest hlater ?_
    rw [machine.reportedVersion_act haction]
    exact UInt64.lt_of_lt_of_le h (version_le_act hfirst)

/-- A document with a screen is always noticed unless the version comes to its end. In every
state that a session leads to, an accepted document with a screen makes the version greater
than it was and greater than the one in the document, unless one of them is the last that
there is. As long as the version does not come to its end, the slice that comes next has a
video event with the screen, whether the machine runs or not. -/
theorem load_noticed (hbuilt : build? config now = .ok fresh) (earlier between : List Action)
    (loaded : Time) (time : Nat) {document : Json} {file : SaveFile} {state : Screen.State}
    (hfile : SaveFile.ofJson document = .ok file) (hscreen : file.state.screen = some state)
    (hbetween : ∀ action ∈ between, ∀ now, action ≠ .slice now) :
    let before := fresh.run earlier
    let after := before.act (.command loaded (.loadState document))
    (before.screen.version < after.screen.version ∧ state.version < after.screen.version ↔
      before.screen.version.toNat ≠ UInt64.size - 1 ∧ state.version.toNat ≠ UInt64.size - 1) ∧
    ((∀ count ∈ fresh.sessionCounts (earlier ++ .command loaded (.loadState document) :: between ++
        [.slice time]), count < UInt64.size) →
      (after.run between).screens (.slice time) =
        [((after.run between).act (.slice time)).screen.state]) := by
  intro before after
  -- the load restores the screen of the document, whatever else is in it
  have hloaded : loadedScreen? (.command loaded (.loadState document)) = some state := by
    simp only [loadedScreen?, hfile, hscreen]
  have hrestored : after.screen = before.screen.restore state := by
    have hafter := screen_loadState before loaded document
    rwa [hloaded] at hafter
  have hiff := Screen.version_lt_restore_iff before.screen state
  rw [← hrestored] at hiff
  constructor
  · have hown := before.screen.version.toNat_lt
    have hstate := state.version.toNat_lt
    rw [hiff, Screen.restoreCount]
    simp only [UInt64.size]
    omega
  · intro hcounts
    rw [sessionCounts_append, sessionCounts_append, run_append] at hcounts
    obtain ⟨hsession, hslice⟩ := List.forall_mem_append.mp hcounts
    obtain ⟨hearlier, hlater⟩ := List.forall_mem_append.mp hsession
    obtain ⟨hload, hrest⟩ := List.forall_mem_append.mp hlater
    have hraised : before.screen.version < after.screen.version :=
      version_lt_act hload (by simp [counts, hloaded])
    -- the load is not told of before the slice
    have huntold : after.reportedVersion < after.screen.version := by
      have htold : after.reportedVersion = before.reportedVersion :=
        before.reportedVersion_act fun _ => Action.noConfusion
      rw [htold]
      exact UInt64.lt_of_le_of_lt (mirrors_run (mirrors_build? hbuilt) hearlier).le hraised
    have hbefore := untold_run hbetween hrest huntold
    have hafter : (after.run between).screen.version ≤
        ((after.run between).act (.slice time)).screen.version :=
      version_le_act fun count hcount => hslice count (List.mem_append_left _ hcount)
    rw [screens_slice, if_neg (UInt64.ne_of_lt (UInt64.lt_of_lt_of_le hbefore hafter)).symm]

/-- A file with a screen of some version. -/
def screenFile (version : UInt64) : SaveFile :=
  .stamp ⟨[], .initial, .initial, some ⟨["HELLO"], 0, 5, version⟩⟩ 0

theorem ofJson_screenFile (version : UInt64) :
    SaveFile.ofJson (screenFile version).encode = .ok (screenFile version) :=
  SaveFile.ofJson_encode rfl rfl (show 0 < UInt64.size by decide) (show 5 < UInt64.size by decide)
    .written

/-- A load into a machine that was never started is noticed. -/
theorem load_noticed_by_new_machine :
    ∃ fresh, build? {} 0 = .ok fresh ∧
      let loaded := fresh.act (.command ⟨1, 0⟩ (.loadState (screenFile 7).encode))
      fresh.screen.version < loaded.screen.version ∧ 7 < loaded.screen.version ∧
        loaded.screens (.slice 2) = [(loaded.act (.slice 2)).screen.state] := by
  obtain ⟨fresh, hbuilt⟩ := exists_build? {} 0
  have hrun : ((build? {} 0).toOption.map fun fresh =>
      (fresh.screen.version, fresh.sessionCounts
        ([] ++ .command ⟨1, 0⟩ (.loadState (screenFile 7).encode) :: [] ++ [.slice 2]))) =
      some (0, [8]) := by
    decide +kernel
  rw [hbuilt] at hrun
  obtain ⟨hversion, hcounts⟩ : fresh.screen.version = 0 ∧ fresh.sessionCounts
      ([] ++ .command ⟨1, 0⟩ (.loadState (screenFile 7).encode) :: [] ++ [.slice 2]) = [8] :=
    (Prod.mk.inj (Option.some.inj hrun :) :)
  obtain ⟨hforward, hnoticed⟩ := load_noticed hbuilt [] [] ⟨1, 0⟩ 2 (ofJson_screenFile 7) rfl
    (by simp)
  obtain ⟨hown, hstate⟩ := hforward.mpr ⟨by simp [hversion], by decide⟩
  refine ⟨fresh, hbuilt, hown, hstate, hnoticed ?_⟩
  rw [hcounts]
  decide

/-- A load of a screen with the last version is not noticed: the version starts again from
zero, which is the one that the host of a new machine was told of. -/
theorem load_unnoticed :
    ∃ fresh, build? {} 0 = .ok fresh ∧
      let file := screenFile 0xFFFFFFFFFFFFFFFF
      let loaded := fresh.act (.command ⟨1, 0⟩ (.loadState file.encode))
      SaveFile.ofJson file.encode = .ok file ∧
        loaded.screen.cells[0][0] = 0x48 ∧ loaded.screen.version = 0 ∧
        loaded.screens (.slice 2) = [] := by
  obtain ⟨fresh, hbuilt⟩ := exists_build? {} 0
  have hrun : ((build? {} 0).toOption.map fun fresh =>
      let loaded := fresh.act
        (.command ⟨1, 0⟩ (.loadState (screenFile 0xFFFFFFFFFFFFFFFF).encode))
      (loaded.screen.cells[0][0], loaded.screen.version, loaded.screens (.slice 2))) =
      some (0x48, 0, []) := by
    decide +kernel
  rw [hbuilt] at hrun
  obtain ⟨hcell, hrest⟩ := Prod.mk.inj (Option.some.inj hrun)
  obtain ⟨hversion, hscreens⟩ := Prod.mk.inj hrest
  exact ⟨fresh, hbuilt, ofJson_screenFile _, hcell, hversion, hscreens⟩

end Build

end Machine

end AppleOne
