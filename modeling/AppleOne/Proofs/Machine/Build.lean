import AppleOne.Machine.Basic

/-!
# Building a machine

Every configuration yields a machine. Its address space is the RAM, if there is any, the
adapter, the RAM for BASIC, if it is wanted, and the ROM.

## Main definitions

* `Machine.layout`: the mappings of a new machine.

## Main results

* `Machine.exists_build?`: building cannot fail.
* `Machine.eq_of_build?`: what a new machine is made of.
-/

namespace AppleOne

/-- A range that does not end before it starts can be mapped. -/
theorem Bus.map?_eq_ok {start last : UInt16} (h : ¬ last < start) (bus : Bus) (name : String)
    (component : Component) :
    ∃ log, bus.map? start last name component =
      .ok { bus with mappings := bus.mappings ++ [⟨start, last, name, component⟩], log } := by
  unfold map?
  rw [if_neg h]
  cases (bus.mappings.find? (·.overlaps start last)).map (shadowing name start last) with
  | none => exact ⟨bus.log, rfl⟩
  | some note => exact ⟨bus.log.add note, rfl⟩

namespace Machine

/-- The RAM of a new machine, if it has any. -/
def ramMapping? (config : Config) : Option Mapping :=
  let size := min config.ramSize Config.maxRamSize
  if size = 0 then none
  else some ⟨0, (size - 1).toUInt16, ramName, .ram (.zeros ramName 0 size.toNat ramName)⟩

/-- The RAM for BASIC of a new machine, if it is wanted. -/
def basicMapping? (config : Config) : Option Mapping :=
  if config.basic then
    some ⟨0xE000, 0xEFFF, basicRamName,
      .ram (.zeros basicRamName 0xE000 0x1000 basicRamName)⟩
  else none

/-- The mappings of a new machine. -/
def layout (config : Config) : List Mapping :=
  (ramMapping? config).toList ++ [⟨0xD010, 0xD013, piaName, .pia (.initial piaName)⟩] ++
    (basicMapping? config).toList ++
    [⟨0xFF00, 0xFFFF, romName, .rom (.zeros romName 0xFF00 0x100 romName)⟩]

theorem mapRam_eq_ok (config : Config) (bus : Bus) :
    ∃ log, mapRam (min config.ramSize Config.maxRamSize) bus =
      .ok { bus with mappings := bus.mappings ++ (ramMapping? config).toList, log } := by
  unfold mapRam ramMapping?
  simp only
  split
  · exact ⟨bus.log, by simp⟩
  · exact Bus.map?_eq_ok (by simp) bus ramName _

theorem mapBasicRam_eq_ok (config : Config) (bus : Bus) :
    ∃ log, mapBasicRam config.basic bus =
      .ok { bus with mappings := bus.mappings ++ (basicMapping? config).toList, log } := by
  unfold mapBasicRam basicMapping?
  split
  · exact Bus.map?_eq_ok (by decide) bus basicRamName _
  · exact ⟨bus.log, by simp⟩

/-- The address space of every configuration can be built. -/
theorem buildBus?_eq_ok (config : Config) :
    ∃ log, buildBus? config = .ok { mappings := layout config, log } := by
  obtain ⟨log₀, h₀⟩ : ∃ log, (Bus.empty config.logCapacity).reportAny
      (clampNote config.ramSize (min config.ramSize Config.maxRamSize)) = { log } := by
    cases clampNote config.ramSize (min config.ramSize Config.maxRamSize) with
    | none => exact ⟨_, rfl⟩
    | some note => exact ⟨_, rfl⟩
  -- range by range; what is mapped is known each time, and the log does not matter
  obtain ⟨log₁, h₁⟩ := mapRam_eq_ok config { log := log₀ }
  obtain ⟨log₂, h₂⟩ := Bus.map?_eq_ok (show ¬ (0xD013 : UInt16) < 0xD010 by decide)
    { mappings := (ramMapping? config).toList, log := log₁ } piaName (.pia (.initial piaName))
  obtain ⟨log₃, h₃⟩ := mapBasicRam_eq_ok config
    { mappings := (ramMapping? config).toList ++
        [⟨0xD010, 0xD013, piaName, .pia (.initial piaName)⟩]
      log := log₂ }
  obtain ⟨log₄, h₄⟩ := Bus.map?_eq_ok (show ¬ (0xFFFF : UInt16) < 0xFF00 by decide)
    { mappings := (ramMapping? config).toList ++
        [⟨0xD010, 0xD013, piaName, .pia (.initial piaName)⟩] ++ (basicMapping? config).toList
      log := log₃ } romName (.rom (.zeros romName 0xFF00 0x100 romName))
  refine ⟨log₄, ?_⟩
  unfold buildBus?
  simp only [List.nil_append] at h₁
  simp only [h₀, h₁, bind, Except.bind, h₂, h₃, h₄]
  rfl

variable {config : Config} {now : Nat} {fresh : Machine}

/-- What a machine that was just built is made of. -/
theorem eq_of_build? (hbuilt : build? config now = .ok fresh) :
    ∃ bus, buildBus? config = .ok bus ∧
      fresh = {
        runner := {
          cpu := { Cpu.powerOn bus none with
            memory := (Cpu.powerOn bus (none : Option StopEvent)).memory.reportAny
              (Clock.initial config now).2 }
          clock := (Clock.initial config now).1
          debugger := .initial }
        screen := .empty config.rubout
        config
        watched := false
        timer := none
        reportedVersion := 0
        lastSlice := .empty } := by
  unfold build? at hbuilt
  cases hbus : buildBus? config with
  | error reason =>
    rw [hbus] at hbuilt
    cases hbuilt
  | ok bus =>
    rw [hbus] at hbuilt
    exact ⟨bus, rfl, (Except.ok.inj hbuilt).symm⟩

/-- Every configuration yields a machine. -/
theorem exists_build? (config : Config) (now : Nat) : ∃ fresh, build? config now = .ok fresh := by
  obtain ⟨log, hbus⟩ := buildBus?_eq_ok config
  unfold build?
  rw [hbus]
  exact ⟨_, rfl⟩

end Machine

end AppleOne
