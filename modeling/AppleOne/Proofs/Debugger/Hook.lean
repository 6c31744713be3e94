import AppleOne.Debugger
import AppleOne.Proofs.Cpu.Step
import Mathlib.Tactic.Common

/-!
# The hook of the debugger

With the hook for its stop addresses installed, a step of the processor is refused
exactly at an address where the debugger has to stop, unless the hook is passed by, and
the refusal notes the stop event. All that the rest of the development needs to know of
the hook is said by one equation.

## Main definitions

* `Debugger.stopAt?`: the stop event of an address where the machine has to stop.

## Main results

* `Debugger.step_eq`: a step of a processor that has the hook installed.
* `Debugger.hook?_eq_none_iff`, `Debugger.hook?_refuses_iff`: when there is a hook, and what
  it refuses.
-/

namespace AppleOne

namespace Debugger

variable {debugger : Debugger} {pc : UInt16}

/-- An address where the machine has to stop: a breakpoint, or the target. -/
def StopsAt (debugger : Debugger) (pc : UInt16) : Prop :=
  pc ∈ debugger.breakpoints ∨ debugger.target = some pc

instance (debugger : Debugger) (pc : UInt16) : Decidable (debugger.StopsAt pc) :=
  inferInstanceAs (Decidable (_ ∨ _))

/-- The stop event of an address, if the machine has to stop there. -/
def stopAt? (debugger : Debugger) (pc : UInt16) : Option StopEvent :=
  if debugger.target = some pc then some (.cursorReached pc)
  else if pc ∈ debugger.breakpoints then some (.breakpointHit pc)
  else none

@[simp] theorem breaksAt_iff : debugger.breaksAt pc = true ↔ pc ∈ debugger.breakpoints := by
  simp [breaksAt]

/-- The debugger stops exactly at its stop addresses. -/
theorem stopAt?_eq_none_iff : debugger.stopAt? pc = none ↔ ¬ debugger.StopsAt pc := by
  unfold stopAt? StopsAt
  split_ifs with htarget hbreak <;> simp [*]

theorem stopsAt_of_stopAt? {event : StopEvent} (h : debugger.stopAt? pc = some event) :
    debugger.StopsAt pc := by
  by_contra hstops
  rw [stopAt?_eq_none_iff.mpr hstops] at h
  cases h

theorem pc_of_stopAt? {event : StopEvent} (h : debugger.stopAt? pc = some event) :
    event.pc = pc := by
  unfold stopAt? at h
  split_ifs at h <;> cases h <;> rfl

/-- At the target the target is reached, elsewhere a breakpoint is hit. -/
theorem eq_of_stopAt? {event : StopEvent} (h : debugger.stopAt? pc = some event) :
    event = if debugger.target = some pc then .cursorReached pc else .breakpointHit pc := by
  unfold stopAt? at h
  split_ifs at h ⊢ <;> cases h <;> rfl

/-- There is no hook exactly if there is nothing to stop at. -/
theorem hook?_eq_none_iff :
    debugger.hook? = none ↔ debugger.breakpoints = [] ∧ debugger.target = none := by
  simp [hook?]

/-- What the hook answers. -/
theorem hook?_apply {ask : Cpu.Hook (Option StopEvent)} (h : debugger.hook? = some ask)
    (pc : UInt16) (noted : Option StopEvent) :
    ask pc noted =
      match debugger.stopAt? pc with
      | some event => (false, some event)
      | none => (true, noted) := by
  unfold hook? at h
  split_ifs at h
  obtain rfl := Option.some.inj h
  unfold hook stopAt?
  split_ifs with htarget hbreak hmem hmem <;> simp_all

/-- The hook refuses exactly the stop addresses. -/
theorem hook?_refuses_iff {ask : Cpu.Hook (Option StopEvent)} (h : debugger.hook? = some ask)
    (pc : UInt16) (noted : Option StopEvent) :
    (ask pc noted).1 = false ↔ debugger.StopsAt pc := by
  rw [hook?_apply h]
  cases hstop : debugger.stopAt? pc with
  | none => simpa using stopAt?_eq_none_iff.mp hstop
  | some event => simpa using stopsAt_of_stopAt? hstop

/-- A step of a processor that has the hook installed. -/
theorem step_eq {M : Type} [Memory M] {cpu : Cpu M (Option StopEvent)}
    (h : cpu.hook = debugger.hook?) :
    cpu.step =
      if cpu.bypass then { cpu with bypass := false }.advance
      else
        match debugger.stopAt? cpu.registers.pc with
        | some event => (.refused cpu.registers.pc, { cpu with memo := some event })
        | none => cpu.advance := by
  by_cases hbypass : cpu.bypass = true
  · rw [if_pos hbypass, Cpu.step_of_bypass hbypass]
  · rw [if_neg hbypass]
    have hbypass := Bool.eq_false_iff.mpr hbypass
    cases hhook : debugger.hook? with
    | none =>
      obtain ⟨hbreakpoints, htarget⟩ := hook?_eq_none_iff.mp hhook
      -- without a hook there is nothing to stop at
      have hstop : debugger.stopAt? cpu.registers.pc = none :=
        stopAt?_eq_none_iff.mpr (by simp [StopsAt, hbreakpoints, htarget])
      have hcpu : { cpu with bypass := false } = cpu := by rw [← hbypass]
      rw [Cpu.step_of_hook_eq_none (h.trans hhook), hstop, hcpu]
    | some ask =>
      rw [Cpu.step_of_hook hbypass (h.trans hhook), hook?_apply hhook]
      cases debugger.stopAt? cpu.registers.pc <;> rfl

end Debugger

end AppleOne
