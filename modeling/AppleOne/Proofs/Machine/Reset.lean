import AppleOne.Proofs.Machine.Drive
import AppleOne.Proofs.Machine.Load

/-!
# The reset line

A reset puts the registers and the adapter into their first state and leaves the banks. So what
a machine does after a reset depends on its banks alone, whatever was done with it before: on
their bytes, and on where they lie. It does not depend on the screen, on which the machine
prints without ever reading from it, nor on how the machine is paced or watched.

## Main definitions

* `Machine.Core.reset`: the reset line as a function on cores.
* `Machine.Incident`, and `Machine.Core.meet`: a step, a key or a reset.
* `Machine.Action.steers`, and `Machine.course`: what a session with resets comes to.
* `Machine.Matches`: machines with the same registers, banks and adapter.
* `Machine.withImages`: a machine whose banks hold given bytes.

## Main results

* `Machine.same_reset_of_banks`: after a reset it is the banks that count.
* `Machine.same_run_of_steers`: a session comes to its course.
* `Machine.reset_forgets`: what comes after a reset does not depend on what came before.
-/

namespace AppleOne

/-! ## Resets of the bus -/

theorem Mapping.isSome_bank?_blank (mapping : Mapping) :
    mapping.blank.component.bank?.isSome = mapping.component.bank?.isSome := by
  obtain ⟨start, last, name, component⟩ := mapping
  cases component <;> rfl

/-- A bank stays and an adapter starts afresh, so what a reset makes of a mapping is decided by
its bank and its blank. -/
theorem Mapping.reset_congr {first second : Mapping} (hblank : first.blank = second.blank)
    (hbank : first.component.bank? = second.component.bank?) :
    first.onComponent (fun _ component => component.reset.1) =
      second.onComponent fun _ component => component.reset.1 := by
  obtain ⟨start, last, name, component⟩ := first
  obtain ⟨start', last', name', component'⟩ := second
  simp only [blank, onComponent, mk.injEq] at hblank ⊢
  obtain ⟨rfl, rfl, rfl, hcomponent⟩ := hblank
  refine ⟨rfl, rfl, rfl, ?_⟩
  cases component <;> cases component' <;>
    simp_all [Component.blank, Component.bank?, Component.reset, Pia.reset]

theorem Mapping.map_reset_congr {first second : List Mapping}
    (hblank : first.map blank = second.map blank)
    (hbanks : first.filterMap (·.component.bank?) = second.filterMap (·.component.bank?)) :
    first.map (·.onComponent fun _ component => component.reset.1) =
      second.map (·.onComponent fun _ component => component.reset.1) := by
  induction first generalizing second with
  | nil =>
    obtain rfl : second = [] := by simpa using hblank
    rfl
  | cons mapping rest ih =>
    cases second with
    | nil => cases hblank
    | cons other others =>
      obtain ⟨hfirst, hrest⟩ := List.cons.inj hblank
      -- the banks stand in the order of the mappings, and a blank tells which of them hold one
      have hsome : mapping.component.bank?.isSome = other.component.bank?.isSome := by
        rw [← isSome_bank?_blank, hfirst, isSome_bank?_blank]
      obtain ⟨hbank, hlater⟩ : mapping.component.bank? = other.component.bank? ∧
          rest.filterMap (·.component.bank?) = others.filterMap (·.component.bank?) := by
        cases hmapping : mapping.component.bank? with
        | none =>
          have hother : other.component.bank? = none := by simpa [hmapping] using hsome
          simpa [hmapping, hother] using hbanks
        | some bank =>
          obtain ⟨held, hother⟩ : ∃ held, other.component.bank? = some held :=
            Option.isSome_iff_exists.mp (by simpa [hmapping] using hsome)
          simpa [hmapping, hother] using hbanks
      rw [List.map_cons, List.map_cons, reset_congr hfirst hbank, ih hrest hlater]

/-- Buses with the same layout and the same banks have the same components after a reset. -/
theorem Bus.mappings_reset_congr {first second : Bus} (hlayout : first.layout = second.layout)
    (hbanks : first.banks = second.banks) :
    first.reset.mappings = second.reset.mappings := by
  simp only [reset, resetMappings_eq]
  exact Mapping.map_reset_congr hlayout hbanks

/-- A bank is told by its blank and its image. -/
theorem Bank.eq_of_clear_of_image {first second : Bank} (hclear : first.clear = second.clear)
    (himage : first.image = second.image) : first = second := by
  obtain ⟨id, origin, data, source⟩ := first
  obtain ⟨id', origin', data', source'⟩ := second
  simp only [clear, mk.injEq] at hclear
  simp only [image, Image.mk.injEq] at himage
  obtain ⟨rfl, rfl, -, rfl⟩ := hclear
  rw [Array.toList_inj.mp himage.2]

theorem Bus.map_clear_banks (bus : Bus) :
    bus.banks.map Bank.clear = bus.layout.filterMap (·.component.bank?) := by
  rw [banks, layout, List.map_filterMap, List.filterMap_map]
  refine List.filterMap_congr fun mapping _ => ?_
  obtain ⟨start, last, name, component⟩ := mapping
  cases component <;> rfl

/-- The banks of a bus are told by its layout and their images. -/
theorem Bus.banks_eq_of_images {first second : Bus} (hlayout : first.layout = second.layout)
    (himages : first.banks.map Bank.image = second.banks.map Bank.image) :
    first.banks = second.banks := by
  have hclear : first.banks.map Bank.clear = second.banks.map Bank.clear := by
    rw [map_clear_banks, map_clear_banks, hlayout]
  have hinjective : Function.Injective fun bank : Bank => (bank.clear, bank.image) :=
    fun _ _ h => Bank.eq_of_clear_of_image (Prod.mk.inj h).1 (Prod.mk.inj h).2
  refine List.map_injective_iff.mpr hinjective ?_
  rw [← List.zip_map', ← List.zip_map', hclear, himages]

namespace Machine

/-! ## Resets of the core -/

/-- The reset line as a function on cores. -/
def Core.reset (core : Core) : Core :=
  coreOf (Cpu.reset { core.pair.1 with memory := core.pair.1.memory.reset }, core.screen)

theorem core_reset (machine : Machine) (now : Nat) :
    (machine.reset now).core = machine.core.reset := by
  -- the two buses differ in their logs
  have hbus : Bus.Alike machine.bus.reset machine.core.pair.1.memory.reset := ⟨rfl, rfl, rfl⟩
  obtain ⟨hvector, hread⟩ :=
    Cpu.Transaction.run_alike Bus.simulation_alike (Cpu.fetchWord Cpu.resetVector) hbus
  have hcore : (machine.reset now).core = coreOf
      ({ machine.runner.cpu with memory := machine.bus.reset }.reset, machine.screen) := rfl
  rw [hcore, Core.reset]
  simp only [coreOf, Cpu.reset, Cpu.restart, Cpu.report, hvector, Core.mk.injEq]
  exact ⟨trivial, hread.mappings, hread.lastRead, hread.lastWrite, rfl, rfl, rfl⟩

variable {first second : Core}

/-- After a reset the cores of machines with the same layout and the same banks are the same. -/
theorem same_reset_of_banks
    (hlayout : first.pair.1.memory.layout = second.pair.1.memory.layout)
    (hbanks : first.pair.1.memory.banks = second.pair.1.memory.banks) :
    first.reset.Same second.reset := by
  have hmappings := Bus.mappings_reset_congr hlayout hbanks
  obtain ⟨hvector, hread⟩ := Cpu.Transaction.run_alike Bus.simulation_mappings
    (Cpu.fetchWord Cpu.resetVector) hmappings
  refine ⟨?_, hread⟩
  simp only [Core.reset, coreOf, Cpu.reset, Cpu.restart, Cpu.report, hvector]

theorem same_reset (h : first.Same second) : first.reset.Same second.reset := by
  have hmappings : first.pair.1.memory.mappings = second.pair.1.memory.mappings := h.mappings
  refine same_reset_of_banks ?_ ?_
  · rw [Bus.layout, Bus.layout, hmappings]
  · rw [Bus.banks, Bus.banks, hmappings]

/-! ## Sessions with resets -/

/-- What happens to the core of a machine that is driven and reset. -/
inductive Incident where
  | stimulus (stimulus : Stimulus)
  | reset
  deriving DecidableEq, Repr

/-- The core after an incident. -/
def Core.meet (core : Core) : Incident → Core
  | .stimulus stimulus => core.stimulate stimulus
  | .reset => core.reset

/-- The actions that reach the registers and the components by steps, keys and resets only. -/
def Action.steers : Action → Bool
  | .reset _ | .command _ .reset | .command _ (.setRubout _) | .command _ (.setProfiling _) => true
  | action => action.drives

/-- What an action comes to. -/
def incidents (machine : Machine) : Action → List Incident
  | .reset _ | .command _ .reset => [.reset]
  | action => (machine.stimuli action).map .stimulus

/-- What a session comes to. -/
def course (machine : Machine) : List Action → List Incident
  | [] => []
  | action :: rest => machine.incidents action ++ (machine.act action).course rest

theorem same_meet (h : first.Same second) (incident : Incident) :
    (first.meet incident).Same (second.meet incident) := by
  cases incident with
  | stimulus stimulus => exact same_stimulate h stimulus
  | reset => exact same_reset h

theorem same_foldl_meet (h : first.Same second) (course : List Incident) :
    (course.foldl Core.meet first).Same (course.foldl Core.meet second) := by
  induction course generalizing first second with
  | nil => exact h
  | cons incident rest ih => exact ih (same_meet h incident)

theorem Core.Same.refl (core : Core) : core.Same core := ⟨rfl, rfl⟩

theorem Core.Same.trans {third : Core} (h : first.Same second) (h' : second.Same third) :
    first.Same third :=
  ⟨h.registers.trans h'.registers, h.mappings.trans h'.mappings⟩

/-- An action does to the registers and the components what it comes to. -/
theorem same_act_of_steers {action : Action} (h : action.steers = true) (machine : Machine) :
    (machine.act action).core.Same ((machine.incidents action).foldl Core.meet machine.core) := by
  have hdrives (hdrives : action.drives = true) :
      (machine.act action).core.Same
        (((machine.stimuli action).map .stimulus).foldl Core.meet machine.core) := by
    rw [core_act_of_drives hdrives, List.foldl_map]
    exact .refl _
  have hreset (now : Nat) : (machine.reset now).core.Same machine.core.reset := by
    rw [core_reset]
    exact .refl _
  cases action with
  | reset now => exact hreset now
  | command time command =>
    cases command with
    | reset => exact hreset time.micros
    | setRubout enabled => exact ⟨rfl, rfl⟩
    | setProfiling enabled =>
      obtain ⟨counts, hswitched⟩ := machine.exists_handle_setProfiling time enabled
      rw [act, hswitched]
      exact ⟨rfl, rfl⟩
    | loadState document => cases h
    | _ => exact hdrives h
  | slice now => exact hdrives h
  | flash _ _ | flashJson _ _ | flashRom _ _ => cases h

/-- A session does to the registers and the components what it comes to. -/
theorem same_run_of_steers {actions : List Action}
    (h : ∀ action ∈ actions, action.steers = true) (machine : Machine) :
    (machine.run actions).core.Same ((machine.course actions).foldl Core.meet machine.core) := by
  induction actions generalizing machine with
  | nil => exact .refl _
  | cons action rest ih =>
    obtain ⟨haction, hrest⟩ := List.forall_mem_cons.mp h
    rw [run_cons, course, List.foldl_append]
    exact (ih hrest (machine.act action)).trans
      (same_foldl_meet (same_act_of_steers haction machine) _)

/-! ## What comes after a reset -/

/-- Machines with the same registers, the same banks and the same adapter. -/
structure Matches (first second : Machine) : Prop where
  registers : first.runner.cpu.registers = second.runner.cpu.registers
  banks : first.bus.banks = second.bus.banks
  adapter : first.pia = second.pia

theorem matches_of_same {first second : Machine} (h : first.core.Same second.core) :
    first.Matches second := by
  have hmappings : first.bus.mappings = second.bus.mappings := h.mappings
  refine ⟨h.registers, ?_, ?_⟩
  · rw [Bus.banks, Bus.banks, hmappings]
  · rw [pia, pia, Bus.pia?, Bus.pia?, hmappings]

/-- After a reset machines with the same banks match for as long as the same happens to them. -/
theorem matches_run_reset {first second : Machine} (hlayout : first.bus.layout = second.bus.layout)
    (hbanks : first.bus.banks = second.bus.banks) (now₁ now₂ : Nat) {later₁ later₂ : List Action}
    (hlater₁ : ∀ action ∈ later₁, action.steers = true)
    (hlater₂ : ∀ action ∈ later₂, action.steers = true)
    (hcourse : (first.reset now₁).course later₁ = (second.reset now₂).course later₂) :
    ((first.reset now₁).run later₁).Matches ((second.reset now₂).run later₂) := by
  obtain ⟨hregisters₁, hmappings₁⟩ := same_run_of_steers hlater₁ (first.reset now₁)
  obtain ⟨hregisters₂, hmappings₂⟩ := same_run_of_steers hlater₂ (second.reset now₂)
  have hreset : (first.reset now₁).core.Same (second.reset now₂).core := by
    rw [core_reset, core_reset]
    exact same_reset_of_banks hlayout hbanks
  -- from cores that are the same, both sessions come to the same course
  obtain ⟨hregisters, hmappings⟩ :=
    same_foldl_meet hreset ((first.reset now₁).course later₁)
  rw [hcourse] at hregisters hmappings hregisters₁ hmappings₁
  exact matches_of_same ⟨hregisters₁.trans (hregisters.trans hregisters₂.symm),
    hmappings₁.trans (hmappings.trans hmappings₂.symm)⟩

/-- A machine whose banks hold the bytes of some images. -/
def withImages (machine : Machine) (images : List Bank.Image) : Machine :=
  machine.withBus (images.foldl fillBank machine.bus)

/-- The images of all banks of a machine put these banks into another one of the same layout. -/
theorem banks_withImages {machine other : Machine} (hdistinct : Mapping.Distinct other.bus.mappings)
    (hlayout : machine.bus.layout = other.bus.layout) :
    (other.withImages machine.snapshot.banks).bus.banks = machine.bus.banks := by
  have hdistinct' : Mapping.Distinct machine.bus.mappings :=
    Mapping.distinct_of_blank hlayout.symm hdistinct
  have hfilled : (other.withImages machine.snapshot.banks).bus.mappings = other.bus.mappings.map
      fun mapping => (Mapping.images machine.bus.mappings).foldl Mapping.fill mapping :=
    Bus.mappings_foldl_fillBank hdistinct.banks _
  refine Bus.banks_congr ?_
  rw [hfilled, List.map_map]
  refine Mapping.map_congr_of_blank hlayout.symm fun mapping hmem original hblank => ?_
  show ((Mapping.images machine.bus.mappings).foldl Mapping.fill original).component.bank? =
    mapping.component.bank?
  cases hbank : mapping.component.bank? with
  | some bank =>
    rw [Mapping.foldl_fill_images hdistinct' hmem hblank (by rw [hbank]; rfl), hbank]
  | none =>
    -- the adapter is left alone by images
    have hkind : ((Mapping.images machine.bus.mappings).foldl Mapping.fill
        original).component.bank?.isSome = mapping.component.bank?.isSome := by
      rw [← Mapping.isSome_bank?_blank, Mapping.blank_foldl_fill, hblank,
        Mapping.isSome_bank?_blank]
    rw [hbank] at hkind
    simpa using hkind

theorem layout_withImages (machine : Machine) (images : List Bank.Image) :
    (machine.withImages images).bus.layout = machine.bus.layout :=
  Bus.layout_foldl_fillBank machine.bus images

/-- How a machine is run does not change at a reset. -/
theorem sameRun_reset (machine : Machine) (now : Nat) : SameRun machine (machine.reset now) where
  started := rfl
  paused := rfl
  pacing := machine.runner.clock.pacer.mode_rebase now
  mode := rfl
  breakpoints := rfl
  target := rfl

theorem banks_machine_reset (machine : Machine) (now : Nat) :
    (machine.reset now).bus.banks = machine.bus.banks := by
  have hreset : (machine.reset now).bus.banks =
      ((machine.bus.reset.read Cpu.resetVector).2.read (Cpu.resetVector + 1)).2.banks := rfl
  rw [hreset, Bus.banks_read, Bus.banks_read, Bus.banks_reset]

section Build

variable {config : Config} {now : Nat} {fresh : Machine}

/-- A reset forgets what came before. Take two machines whose banks have the same places and
the same bytes, whatever else was done to them, and let the same happen to both after a reset:
steps, keys and further resets, however the steps are cut into slices and whatever is asked in
between that leaves the registers and the components alone. Then they have the same registers,
banks and adapter, and so has a new machine whose banks were given the same bytes. The reset
itself changes no bank, leaves the screen, and the machine is run as before. -/
theorem reset_forgets (hbuilt : build? config now = .ok fresh) {first second : Machine}
    (hlayout : first.bus.layout = second.bus.layout)
    (hbytes : first.snapshot.banks = second.snapshot.banks)
    (hfresh : first.bus.layout = fresh.bus.layout) :
    let filled := fresh.withImages first.snapshot.banks
    filled.bus.banks = first.bus.banks ∧
    (∀ other, other = second ∨ other = filled → ∀ now₁ now₂ later₁ later₂,
      (∀ action ∈ later₁, action.steers = true) → (∀ action ∈ later₂, action.steers = true) →
      (first.reset now₁).course later₁ = (other.reset now₂).course later₂ →
      ((first.reset now₁).run later₁).Matches ((other.reset now₂).run later₂)) ∧
    ∀ machine now,
      (machine.reset now).bus.banks = machine.bus.banks ∧
      (machine.reset now).screen = machine.screen ∧ SameRun machine (machine.reset now) := by
  have hdistinct : Mapping.Distinct fresh.bus.mappings :=
    (sound_build? hbuilt).distinct (distinct_layout config)
  have hfilled := banks_withImages hdistinct hfresh
  refine ⟨hfilled, ?_, fun machine now => ⟨banks_machine_reset machine now, rfl,
    sameRun_reset machine now⟩⟩
  rintro other (rfl | rfl) now₁ now₂ later₁ later₂ hlater₁ hlater₂ hcourse
  · exact matches_run_reset hlayout (Bus.banks_eq_of_images hlayout hbytes) now₁ now₂ hlater₁
      hlater₂ hcourse
  · exact matches_run_reset (hfresh.trans (layout_withImages fresh _).symm) hfilled.symm
      now₁ now₂ hlater₁ hlater₂ hcourse

/-- A session keeps the layout. -/
theorem layout_run (hbuilt : build? config now = .ok fresh) (actions : List Action) :
    (fresh.run actions).bus.layout = fresh.bus.layout :=
  (sound_run hbuilt actions).layout.trans (sound_build? hbuilt).layout.symm

/-- A key and a step. -/
def keyAndStep : List Action := [.command ⟨1, 0⟩ (.keyDown "A"), .command ⟨2, 0⟩ .step]

/-- A step and a reset. -/
def stepAndReset : List Action := [.command ⟨4, 0⟩ .step, .command ⟨5, 0⟩ .reset]

/-- A machine that took a key and went through a step, and one that did neither. -/
theorem reset_forgets_key_and_step :
    ∃ fresh, build? { ramSize := 8, basic := false } 0 = .ok fresh ∧
      (fresh.run keyAndStep).runner.cpu.registers ≠ fresh.runner.cpu.registers ∧
      (fresh.run keyAndStep).pia ≠ fresh.pia ∧
      (((fresh.run keyAndStep).reset 3).run stepAndReset).Matches
        ((fresh.reset 3).run stepAndReset) := by
  obtain ⟨fresh, hbuilt⟩ := exists_build? { ramSize := 8, basic := false } 0
  have hrun : ((build? { ramSize := 8, basic := false } 0).toOption.map fun fresh =>
      (decide ((fresh.run keyAndStep).runner.cpu.registers ≠ fresh.runner.cpu.registers),
        decide ((fresh.run keyAndStep).pia ≠ fresh.pia),
        decide ((fresh.run keyAndStep).snapshot.banks = fresh.snapshot.banks))) =
      some (true, true, true) := by
    decide +kernel
  rw [hbuilt] at hrun
  obtain ⟨hregisters, hrest⟩ := Prod.mk.inj (Option.some.inj hrun)
  obtain ⟨hadapter, hbytes⟩ := Prod.mk.inj hrest
  have hlayout := layout_run hbuilt keyAndStep
  have hsteers : ∀ action ∈ stepAndReset, action.steers = true := by decide
  have hcourse (machine : Machine) :
      machine.course stepAndReset = [.stimulus .instruction, .reset] := rfl
  obtain ⟨-, hmatches, -⟩ := reset_forgets hbuilt hlayout (of_decide_eq_true hbytes) hlayout
  exact ⟨fresh, hbuilt, of_decide_eq_true hregisters, of_decide_eq_true hadapter,
    hmatches fresh (.inl rfl) 3 3 _ _ hsteers hsteers
      ((hcourse _).trans (hcourse _).symm)⟩

end Build

end Machine

end AppleOne
