import AppleOne.Proofs.Bus.Layout
import AppleOne.Proofs.Debugger.Coherence
import AppleOne.Proofs.Machine.Core
import AppleOne.Proofs.Machine.Restore
import AppleOne.Proofs.Screen.Printable

/-!
# Sound cores

Whatever a host does with a machine, its mappings keep the layout with which it was built,
the display has taken all that was written to port B, and all cells of the screen are
printable. So nothing of the core of a machine is lost when it is saved: the strobe is
always down and need not be kept, and the strings of the screen tell all of its cells.

## Main definitions

* `Machine.Core.Sound`: the invariant.

## Main results

* `Machine.sound_advance`: a machine step keeps it.
* `Machine.sound_act`, `Machine.sound_run`: it holds throughout a session.
-/

namespace AppleOne

namespace Bus

/-- What an advance makes of the layout: nothing. -/
theorem layout_memoryAfter {σ : Type} (cpu : Cpu Bus σ) :
    cpu.memoryAfter.layout = cpu.memory.layout :=
  Cpu.memoryAfter_induction (P := fun bus : Bus => bus.layout = cpu.memory.layout)
    (fun bus address h => (bus.layout_read address).trans h)
    (fun bus address value h => (bus.layout_write address value).trans h)
    (fun _ _ h => h) rfl

end Bus

namespace Machine

/-- The layout of a machine, the strobe and the cells are as they should be. -/
structure Core.Sound (layout : List Mapping) (core : Core) : Prop where
  layout : core.mappings.map Mapping.blank = layout.map Mapping.blank
  settled : Mapping.Settled core.mappings
  printable : core.screen.Printable

variable {layout : List Mapping} {core : Core} {machine : Machine}

theorem Core.Sound.distinct (h : core.Sound layout) (hdistinct : Mapping.Distinct layout) :
    Mapping.Distinct core.mappings :=
  Mapping.distinct_of_blank h.layout.symm hdistinct

/-! ## Machine steps -/

theorem servePia_source (adapter : Pia) : (servePia adapter).2.source = adapter.source := by
  unfold servePia takeCharacter
  simp only
  split <;> rfl

/-- After the display was served nothing is left for it. -/
theorem servePia_strobe (adapter : Pia) : (servePia adapter).2.strobe = false := by
  unfold servePia takeCharacter
  simp only
  split <;> rfl

theorem printable_shown {screen : Screen} (h : screen.Printable) (character : Option UInt8) :
    (shown screen character).Printable := by
  cases character with
  | none => exact h
  | some code => exact Screen.printable_write h code

/-- A machine step keeps a core sound. The strobe may go up in its course, but comes down
again before it ends. -/
theorem sound_advance (hdistinct : Mapping.Distinct layout) (h : core.Sound layout) :
    core.advance.Sound layout := by
  have hlayout : core.pair.1.memoryAfter.layout = layout.map Mapping.blank :=
    (Bus.layout_memoryAfter core.pair.1).trans h.layout
  have hdistinct' : Mapping.Distinct core.pair.1.memoryAfter.mappings :=
    Mapping.distinct_of_blank hlayout.symm hdistinct
  rw [Core.advance_eq]
  exact ⟨(Bus.layout_onPia _ servePia servePia_source).trans hlayout,
    Bus.settled_onPia_of_lowers hdistinct' servePia servePia_strobe, printable_shown h.printable _⟩

theorem sound_slice (hdistinct : Mapping.Distinct layout) (h : machine.core.Sound layout)
    (now : Nat) : (machine.slice now).2.1.core.Sound layout := by
  -- whether it ends with a stop or not, a slice is a number of machine steps
  rw [core_slice_iterate]
  exact Function.Iterate.rec _ h (fun _ => sound_advance hdistinct) _

/-! ## Commands -/

/-- An action on the adapter that keeps the strobe down keeps a core sound. -/
theorem sound_onAdapter (h : core.Sound layout) {act : Pia → Pia}
    (hsource : ∀ adapter, (act adapter).source = adapter.source)
    (hstrobe : ∀ adapter, adapter.strobe = false → (act adapter).strobe = false) :
    (core.onAdapter act).Sound layout := by
  have hsettled : Mapping.Settled core.pair.1.memory.mappings := h.settled
  exact ⟨(Bus.layout_onPia _ (fun pia => ((), act pia)) hsource).trans h.layout,
    Bus.settled_onPia hsettled (fun pia => ((), act pia)) hstrobe, h.printable⟩

theorem sound_pressKey (h : machine.core.Sound layout) (key : String) :
    (machine.pressKey key).core.Sound layout := by
  rw [core_pressKey]
  split
  · exact sound_onAdapter h (fun _ => rfl) (fun _ hstrobe => hstrobe)
  · exact h

/-- A reset puts the strobe down, and then the reset vector is read. -/
theorem sound_reset (h : machine.core.Sound layout) (now : Nat) :
    (machine.reset now).core.Sound layout := by
  have hmappings : (machine.reset now).core.mappings =
      ((machine.bus.reset.read Cpu.resetVector).2.read (Cpu.resetVector + 1)).2.mappings := rfl
  constructor
  · rw [hmappings]
    refine (Bus.layout_read _ _).trans ?_
    rw [Bus.layout_read, Bus.layout_reset]
    exact h.layout
  · rw [hmappings]
    exact Bus.settled_read (Bus.settled_read machine.bus.settled_reset _) _
  · exact h.printable

/-- A restore keeps the layout, puts the strobe down and makes all cells printable. -/
theorem sound_restore (hdistinct : Mapping.Distinct layout) (h : machine.core.Sound layout)
    (now : Nat) (snapshot : Snapshot) : (machine.restore now snapshot).core.Sound layout := by
  have hfilled : (snapshot.banks.foldl fillBank machine.bus).layout =
      layout.map Mapping.blank :=
    (Bus.layout_foldl_fillBank machine.bus snapshot.banks).trans h.layout
  have hdistinct' : Mapping.Distinct (snapshot.banks.foldl fillBank machine.bus).mappings :=
    Mapping.distinct_of_blank hfilled.symm hdistinct
  refine ⟨?_, ?_, ?_⟩
  · exact (Bus.layout_onPia _ (fun pia => ((), pia.restore snapshot.pia))
      fun _ => rfl).trans hfilled
  · exact Bus.settled_onPia_of_lowers hdistinct' (fun pia => ((), pia.restore snapshot.pia))
      fun _ => rfl
  · show (machine.restore now snapshot).screen.Printable
    unfold restore
    simp only
    split
    · exact Screen.printable_restore _ _
    · exact h.printable

theorem sound_load (hdistinct : Mapping.Distinct layout) (h : machine.core.Sound layout)
    (now : Nat) (document : Json) : (machine.load now document).2.core.Sound layout := by
  unfold load
  split
  · exact h
  · exact sound_restore hdistinct h now _

theorem sound_handle (hdistinct : Mapping.Distinct layout) (h : machine.core.Sound layout)
    (time : Time) (command : Command) :
    (machine.handle time command).2.core.Sound layout := by
  cases command using Command.core_cases with
  | leaves command hleaves =>
    rw [core_handle_of_leavesCore hleaves]
    exact h
  | keyDown key => exact sound_pressKey h key
  | step =>
    have hcore : (machine.handle time .step).2.core = machine.core.advance :=
      core_singleStep machine
    rw [hcore]
    exact sound_advance hdistinct h
  | loadState document =>
    rw [handle_loadState]
    exact sound_load hdistinct h time.micros document
  | setRubout enabled => exact ⟨h.layout, h.settled, h.printable⟩
  | setProfiling enabled =>
    obtain ⟨counts, hswitched⟩ := machine.exists_handle_setProfiling time enabled
    rw [hswitched]
    exact ⟨h.layout, h.settled, h.printable⟩
  | reset => exact sound_reset h time.micros

/-! ## Sessions -/

/-- An action on a bank that changes nothing but its bytes keeps a core sound. -/
theorem sound_onBank (h : machine.core.Sound layout) (id : String)
    {act : Bank → Except FlashRefusal Nat × Bank × List Note}
    (hclear : ∀ bank, (act bank).2.1.clear = bank.clear) :
    (machine.onBank id act).2.core.Sound layout := by
  have hlayout := machine.bus.layout_onBank id act hclear
  have hmapped : Mapping.Settled machine.bus.mappings := h.settled
  have hsettled := Bus.settled_onBank hmapped id act
  rcases machine.onBank_cases id act with hbank | ⟨note, hnote⟩
  · rw [hbank]
    exact ⟨hlayout.trans h.layout, hsettled, h.printable⟩
  · rw [hnote]
    exact h

/-- Every action keeps a core sound. -/
theorem sound_act (hdistinct : Mapping.Distinct layout) (h : machine.core.Sound layout)
    (action : Action) : (machine.act action).core.Sound layout := by
  cases action with
  | command time command => exact sound_handle hdistinct h time command
  | slice now => exact sound_slice hdistinct h now
  | reset now => exact sound_reset h now
  | flash id payload => exact sound_onBank h id fun bank => bank.clear_flash payload
  | flashJson id payload => exact sound_onBank h id fun bank => bank.clear_flashJson payload
  | flashRom now payload =>
    have hflash : (machine.flash romName payload).2.core.Sound layout :=
      sound_onBank h romName fun bank => bank.clear_flash payload
    rcases machine.flashRom_cases now payload with hsame | hreset
    · rw [act, hsame]
      exact hflash
    · rw [act, hreset]
      exact sound_reset hflash now

section Build

variable {config : Config} {now : Nat} {fresh : Machine}

/-- The mappings of a new machine hold parts that are distinct. -/
theorem distinct_layout (config : Config) : Mapping.Distinct (Machine.layout config) := by
  -- four cases each, by whether there is RAM and whether there is RAM for BASIC
  constructor
  · unfold Machine.layout ramMapping? basicMapping?
    simp only
    split <;> split <;> simp [Mapping.bankId?, Component.bank?, Bank.zeros] <;> decide
  · unfold Machine.layout ramMapping? basicMapping?
    simp only
    split <;> split <;> simp [Bus.holdsPia]

theorem settled_layout (config : Config) : Mapping.Settled (Machine.layout config) := by
  unfold Machine.layout ramMapping? basicMapping? Mapping.Settled
  simp only
  split <;> split <;> simp [Component.strobe, Pia.initial]

/-- Between the mapping of its ranges and its first step a machine fetches the reset vector. -/
theorem mappings_build? (hbuilt : build? config now = .ok fresh) :
    ∃ bus : Bus, bus.mappings = Machine.layout config ∧
      fresh.core.mappings =
        ((bus.read Cpu.resetVector).2.read (Cpu.resetVector + 1)).2.mappings := by
  obtain ⟨bus, hbus, rfl⟩ := eq_of_build? hbuilt
  obtain ⟨log, hlog⟩ := buildBus?_eq_ok config
  exact ⟨bus, congrArg Bus.mappings (Except.ok.inj (hbus.symm.trans hlog)),
    Bus.mappings_reportAny _ _⟩

/-- A machine that was just built is sound. -/
theorem sound_build? (hbuilt : build? config now = .ok fresh) :
    fresh.core.Sound (Machine.layout config) := by
  obtain ⟨bus, hmapped, hfetched⟩ := mappings_build? hbuilt
  have hsettled : Mapping.Settled bus.mappings := hmapped ▸ settled_layout config
  have hprintable : fresh.screen.Printable := by
    obtain ⟨_, -, rfl⟩ := eq_of_build? hbuilt
    exact Screen.printable_empty config.rubout
  refine ⟨?_, ?_, hprintable⟩
  · rw [hfetched]
    exact hmapped ▸ (Bus.layout_read _ _).trans (bus.layout_read _)
  · rw [hfetched]
    exact Bus.settled_read (Bus.settled_read hsettled _) _

/-- Throughout a session the core is sound. -/
theorem sound_run (hbuilt : build? config now = .ok fresh) (actions : List Action) :
    (fresh.run actions).core.Sound (Machine.layout config) :=
  run_induction (P := fun machine => machine.core.Sound (Machine.layout config))
    (sound_build? hbuilt) (fun _ action h => sound_act (distinct_layout config) h action) actions

end Build

end Machine

end AppleOne
