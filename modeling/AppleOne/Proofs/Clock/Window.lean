import AppleOne.Pacer
import Mathlib.Algebra.GroupWithZero.Nat

/-!
# The window of a timekeeper

A timekeeper lets emulated time be neither ahead of real time nor far behind it. It cannot see
to that at every moment, because cycles are counted when they have been run and time passes
between its calls. But whenever it has synchronized the two, emulated time is in a window that
ends at the present and begins as long before as it may lag behind.

Time is given in whole microseconds, and the time that a number of cycles takes is rounded down.
So the cycles can be ahead by what runs in less than a microsecond.

## Main definitions

* `Timekeeper.Call`, `Paced`: calls of a timekeeper, and the moment between two of them.
* `Paced.Resyncs`, `Paced.resyncCount`: the calls that give up catching up, and how many of them
  there are in a run.
* `Paced.Sound`: what calls keep.
* `Paced.Synchronizes`: what synchronizing comes to.

## Main results

* `Timekeeper.synchronize_eq`: both branches of synchronizing in one equation.
* `Paced.sound_run`: the invariant after any calls.
* `Paced.resyncs_run`: the counter of a timekeeper after any calls.
* `Paced.counted_run`: the cycles since a reference that stays.
* `Paced.synchronizes_of_sound`: the window.
* `Paced.total_lt_of_sound`: how far all the cycles can be ahead.
-/

namespace AppleOne

theorem saturate_of_lt {n : Nat} (h : n < UInt64.size) : saturate n = n :=
  Nat.min_eq_left (Nat.le_sub_one_of_lt h)

theorem saturate_le (n : Nat) : saturate n ≤ n :=
  Nat.min_le_left n maxCount

theorem saturate_mono {m n : Nat} (h : m ≤ n) : saturate m ≤ saturate n :=
  Nat.le_min.mpr ⟨Nat.le_trans (saturate_le m) h, Nat.min_le_right m maxCount⟩

/-- A sum that is cut down at every step is the sum cut down once. -/
theorem saturate_add (m n : Nat) : saturate (saturate m + n) = saturate (m + n) := by
  simp only [saturate]
  omega

namespace Timekeeper

variable {keeper other : Timekeeper} {now : Nat}

/-! ## Settings -/

/-- Timekeepers with the same rate, length of a slice and lag. Nothing that is asked of a
timekeeper changes these. -/
structure SameSettings (keeper other : Timekeeper) : Prop where
  hz : keeper.hz = other.hz
  sliceLength : keeper.sliceLength = other.sliceLength
  maxLag : keeper.maxLag = other.maxLag

theorem SameSettings.trans {third : Timekeeper} (h : keeper.SameSettings other)
    (h' : other.SameSettings third) : keeper.SameSettings third :=
  ⟨h.hz.trans h'.hz, h.sliceLength.trans h'.sliceLength, h.maxLag.trans h'.maxLag⟩

theorem SameSettings.cyclesPerSlice (h : keeper.SameSettings other) :
    keeper.cyclesPerSlice = other.cyclesPerSlice := by
  simp only [Timekeeper.cyclesPerSlice, h.hz, h.sliceLength]

theorem sameSettings_rebase : (keeper.rebase now).SameSettings keeper := ⟨rfl, rfl, rfl⟩

theorem sameSettings_resync : (keeper.resync now).SameSettings keeper := ⟨rfl, rfl, rfl⟩

theorem sameSettings_count {cycles : Nat} : (keeper.count cycles).SameSettings keeper := ⟨rfl, rfl, rfl⟩

theorem cyclesPerSlice_pos (keeper : Timekeeper) : 0 < keeper.cyclesPerSlice :=
  Nat.le_max_right _ 1

/-! ## Synchronizing -/

/-- Emulated time lags behind real time by more than it may. -/
def Lags (keeper : Timekeeper) (now : Nat) : Prop :=
  keeper.emulatedTime + keeper.maxLag < now - keeper.reference

instance (keeper : Timekeeper) (now : Nat) : Decidable (keeper.Lags now) :=
  inferInstanceAs (Decidable (_ < _))

/-- A timekeeper that lags behind sets a new reference, and one that is ahead waits for as long as
it is. -/
theorem synchronize_eq (keeper : Timekeeper) (now : Nat) :
    keeper.synchronize now =
      (if keeper.Lags now then keeper.resync now else keeper,
        now + (keeper.emulatedTime - (now - keeper.reference))) := by
  by_cases hahead : now - keeper.reference < keeper.emulatedTime
  · have hlags : ¬ keeper.Lags now := by
      unfold Lags
      omega
    simp only [synchronize, if_pos hahead, if_neg hlags]
  · have hwait : keeper.emulatedTime - (now - keeper.reference) = 0 := by omega
    have hfar : keeper.maxLag < now - keeper.reference - keeper.emulatedTime ↔
        keeper.Lags now := by
      unfold Lags
      omega
    simp only [synchronize, if_neg hahead, hfar, hwait, Nat.add_zero]
    split <;> rfl

theorem sameSettings_synchronize : (keeper.synchronize now).1.SameSettings keeper := by
  rw [synchronize_eq]
  split
  · exact sameSettings_resync
  · exact ⟨rfl, rfl, rfl⟩

/-- What a pacer allows, with the parts of a synchronized timekeeper taken one by one. -/
theorem allowance_eq (now : Nat) (pacer : Pacer) :
    pacer.allowance now =
      match pacer with
      | .freeRun batch => (⟨batch, maxCount⟩, .freeRun batch, now)
      | .cycleAccurate keeper =>
        (⟨Pacer.maxInstructions, (keeper.synchronize now).1.cyclesPerSlice⟩,
          .cycleAccurate (keeper.synchronize now).1, (keeper.synchronize now).2) := by
  unfold Pacer.allowance
  -- the kernel would multiply by a million in unary if it saw how time is synchronized
  obtain ⟨synchronize, hsynchronize⟩ : ∃ synchronize, synchronize = Timekeeper.synchronize :=
    ⟨_, rfl⟩
  rewrite [← hsynchronize]
  cases pacer <;> rfl

/-- A pacer that is cycle-accurate has its timekeeper synchronize, and allows the cycles of a
slice. -/
theorem allowance_cycleAccurate (keeper : Timekeeper) (now : Nat) :
    Pacer.allowance now (.cycleAccurate keeper) =
      (⟨Pacer.maxInstructions, (keeper.synchronize now).1.cyclesPerSlice⟩,
        .cycleAccurate (keeper.synchronize now).1, (keeper.synchronize now).2) := by
  rw [allowance_eq]

/-! ## Calls -/

/-- What is asked of a timekeeper, and the time that passes in between. -/
inductive Call where
  | wait (time : Nat)
  | synchronize
  | count (cycles : Nat)
  | rebase
  deriving DecidableEq, Repr

/-- The cycles that are counted by a call. -/
def Call.cycles : Call → Nat
  | .count cycles => cycles
  | _ => 0

end Timekeeper

/-- A timekeeper at some moment. -/
structure Paced where
  keeper : Timekeeper
  now : Nat
  /-- The cycles that were counted since the time of reference, as a number without bounds. -/
  counted : Nat

namespace Paced

/-- A timekeeper at the moment at which it starts. -/
def start (hz : UInt64) (sliceLength maxLag now : Nat) : Paced :=
  ⟨.start hz sliceLength maxLag now, now, 0⟩

/-- The time since the reference. -/
def elapsed (paced : Paced) : Nat := paced.now - paced.keeper.reference

/-- The moment after a call. It is a later one if the timekeeper has waited. A new reference is
set by `rebase`, and by `synchronize` if the timekeeper lags behind. -/
def after (paced : Paced) : Timekeeper.Call → Paced
  | .wait time => { paced with now := paced.now + time }
  | .synchronize =>
    let (keeper, now) := paced.keeper.synchronize paced.now
    ⟨keeper, now, if paced.keeper.Lags paced.now then 0 else paced.counted⟩
  | .count cycles =>
    { paced with keeper := paced.keeper.count cycles, counted := paced.counted + cycles }
  | .rebase => ⟨paced.keeper.rebase paced.now, paced.now, 0⟩

/-- A call with the parts of a synchronized timekeeper taken one by one. -/
theorem after_eq (paced : Paced) (call : Timekeeper.Call) :
    paced.after call =
      match call with
      | .wait time => { paced with now := paced.now + time }
      | .synchronize =>
        let ready := paced.keeper.synchronize paced.now
        ⟨ready.1, ready.2, if paced.keeper.Lags paced.now then 0 else paced.counted⟩
      | .count cycles =>
        { paced with keeper := paced.keeper.count cycles, counted := paced.counted + cycles }
      | .rebase => ⟨paced.keeper.rebase paced.now, paced.now, 0⟩ := by
  unfold after
  -- as for `Timekeeper.allowance_eq`
  obtain ⟨synchronize, hsynchronize⟩ : ∃ synchronize, synchronize = Timekeeper.synchronize :=
    ⟨_, rfl⟩
  rw [← hsynchronize]

theorem after_synchronize (paced : Paced) :
    paced.after .synchronize =
      ⟨(paced.keeper.synchronize paced.now).1, (paced.keeper.synchronize paced.now).2,
        if paced.keeper.Lags paced.now then 0 else paced.counted⟩ := by
  rw [after_eq]

/-- The parts of a moment after synchronizing. -/
theorem parts_after_synchronize (paced : Paced) :
    (paced.after .synchronize).keeper = (paced.keeper.synchronize paced.now).1 ∧
      (paced.after .synchronize).now = (paced.keeper.synchronize paced.now).2 := by
  -- as for `Timekeeper.allowance_eq`
  have hparts {moment : Paced} {ready : Timekeeper × Nat} {counted : Nat}
      (h : moment = ⟨ready.1, ready.2, counted⟩) :
      moment.keeper = ready.1 ∧ moment.now = ready.2 := by
    subst h
    exact ⟨rfl, rfl⟩
  exact hparts (after_synchronize paced)

/-- The moment after some calls. -/
def run (paced : Paced) (calls : List Timekeeper.Call) : Paced :=
  calls.foldl after paced

/-- Whether a call gives up catching up. -/
def Resyncs (paced : Paced) (call : Timekeeper.Call) : Prop :=
  call = .synchronize ∧ paced.keeper.Lags paced.now

instance (paced : Paced) (call : Timekeeper.Call) : Decidable (paced.Resyncs call) :=
  inferInstanceAs (Decidable (_ ∧ _))

/-- How many calls of a run give up catching up, as a number without bounds. -/
def resyncCount (paced : Paced) : List Timekeeper.Call → Nat
  | [] => 0
  | call :: rest => (if paced.Resyncs call then 1 else 0) + (paced.after call).resyncCount rest

/-- What calls keep: the reference is not in the future, and the cycles counted since then are
known as far as 64 bits go. -/
structure Sound (paced : Paced) : Prop where
  hz_pos : 0 < paced.keeper.hz
  reference_le : paced.keeper.reference ≤ paced.now
  emulated_eq : paced.keeper.emulated = saturate paced.counted

variable {paced : Paced} {call : Timekeeper.Call}

theorem run_concat (paced : Paced) (calls : List Timekeeper.Call) (call : Timekeeper.Call) :
    paced.run (calls ++ [call]) = (paced.run calls).after call :=
  List.foldl_append

theorem sameSettings_after (paced : Paced) (call : Timekeeper.Call) :
    (paced.after call).keeper.SameSettings paced.keeper := by
  cases call with
  | wait time => exact ⟨rfl, rfl, rfl⟩
  | synchronize =>
    rw [(parts_after_synchronize paced).1]
    exact Timekeeper.sameSettings_synchronize
  | count cycles => exact Timekeeper.sameSettings_count
  | rebase => exact Timekeeper.sameSettings_rebase

theorem sameSettings_run (paced : Paced) (calls : List Timekeeper.Call) :
    (paced.run calls).keeper.SameSettings paced.keeper := by
  induction calls generalizing paced with
  | nil => exact ⟨rfl, rfl, rfl⟩
  | cons call rest ih => exact (ih (paced.after call)).trans (sameSettings_after paced call)

/-- The moment after synchronizing, if the timekeeper lags behind. -/
theorem after_synchronize_of_lags (hlags : paced.keeper.Lags paced.now) :
    paced.after .synchronize = ⟨paced.keeper.resync paced.now, paced.now, 0⟩ := by
  have hahead : paced.keeper.emulatedTime - (paced.now - paced.keeper.reference) = 0 := by
    unfold Timekeeper.Lags at hlags
    omega
  simp only [after_synchronize, Timekeeper.synchronize_eq, if_pos hlags, hahead, Nat.add_zero]

/-- The moment after synchronizing, if the timekeeper does not lag behind. -/
theorem after_synchronize_of_not_lags (hlags : ¬ paced.keeper.Lags paced.now) :
    paced.after .synchronize =
      { paced with now := paced.now + (paced.keeper.emulatedTime - paced.elapsed) } := by
  simp only [after_synchronize, Timekeeper.synchronize_eq, if_neg hlags, elapsed]

theorem sound_after (h : paced.Sound) (call : Timekeeper.Call) : (paced.after call).Sound := by
  obtain ⟨hhz, hreference, hemulated⟩ := h
  cases call with
  | wait time => exact ⟨hhz, Nat.le_add_right_of_le hreference, hemulated⟩
  | synchronize =>
    by_cases hlags : paced.keeper.Lags paced.now
    · rw [after_synchronize_of_lags hlags]
      exact ⟨hhz, Nat.le_refl _, rfl⟩
    · rw [after_synchronize_of_not_lags hlags]
      exact ⟨hhz, Nat.le_add_right_of_le hreference, hemulated⟩
  | count cycles =>
    refine ⟨hhz, hreference, ?_⟩
    simp only [after_eq, Timekeeper.count, hemulated, saturate_add]
  | rebase => exact ⟨hhz, Nat.le_refl _, rfl⟩

theorem sound_start (hz : UInt64) (sliceLength maxLag now : Nat) :
    (start hz sliceLength maxLag now).Sound :=
  ⟨Nat.le_max_right _ 1, Nat.le_refl _, rfl⟩

theorem sound_run (h : paced.Sound) (calls : List Timekeeper.Call) : (paced.run calls).Sound := by
  induction calls generalizing paced with
  | nil => exact h
  | cons call rest ih => exact ih (sound_after h call)

/-! ## The cycles since the reference -/

/-- A call that gives up catching up is counted. -/
theorem resyncs_after (paced : Paced) (call : Timekeeper.Call) :
    (paced.after call).keeper.resyncs =
      paced.keeper.resyncs + if paced.Resyncs call then 1 else 0 := by
  by_cases hresyncs : paced.Resyncs call
  · obtain ⟨rfl, hlags⟩ := hresyncs
    rw [after_synchronize_of_lags hlags, if_pos ⟨rfl, hlags⟩]
    rfl
  · rw [if_neg hresyncs, UInt64.add_zero]
    cases call with
    | synchronize => rw [after_synchronize_of_not_lags fun hlags => hresyncs ⟨rfl, hlags⟩]
    | wait _ | count _ | rebase => rfl

/-- The counter goes on by the number of calls that gave up catching up, modulo 64 bits. -/
theorem resyncs_run (paced : Paced) (calls : List Timekeeper.Call) :
    (paced.run calls).keeper.resyncs =
      paced.keeper.resyncs + (paced.resyncCount calls).toUInt64 := by
  induction calls generalizing paced with
  | nil => exact (UInt64.add_zero _).symm
  | cons call rest ih =>
    have hrest : (paced.run (call :: rest)).keeper.resyncs = _ := ih (paced.after call)
    rw [hrest, resyncs_after, UInt64.add_assoc, resyncCount]
    split <;> exact congrArg (paced.keeper.resyncs + ·) (UInt64.ofNat_add _ _).symm

/-- No call of a run gives up if the first one does not and none of the others does. -/
theorem resyncCount_cons_eq_zero_iff {rest : List Timekeeper.Call} :
    paced.resyncCount (call :: rest) = 0 ↔
      ¬ paced.Resyncs call ∧ (paced.after call).resyncCount rest = 0 := by
  simp [resyncCount]

theorem counted_after (hcall : call ≠ .rebase) (hkept : ¬ paced.Resyncs call) :
    (paced.after call).counted = paced.counted + call.cycles := by
  cases call with
  | wait time => rfl
  | synchronize =>
    rw [after_synchronize_of_not_lags fun hlags => hkept ⟨rfl, hlags⟩]
    rfl
  | count cycles => rfl
  | rebase => exact absurd rfl hcall

/-- While the reference stays, all cycles are counted together. -/
theorem counted_run {calls : List Timekeeper.Call} (hcalls : ∀ call ∈ calls, call ≠ .rebase)
    (hkept : paced.resyncCount calls = 0) :
    (paced.run calls).counted = paced.counted + (calls.map Timekeeper.Call.cycles).sum := by
  induction calls generalizing paced with
  | nil => rfl
  | cons call rest ih =>
    obtain ⟨hcall, hrest⟩ := List.forall_mem_cons.mp hcalls
    obtain ⟨hfirst, hlater⟩ := resyncCount_cons_eq_zero_iff.mp hkept
    have hcounted : (paced.run (call :: rest)).counted = _ := ih hrest hlater
    rw [hcounted, counted_after hcall hfirst, List.map_cons, List.sum_cons, Nat.add_assoc]

/-! ## The window -/

/-- What synchronizing comes to: emulated time is in the window, after waiting or giving up where
that was needed. -/
structure Synchronizes (before after : Paced) : Prop where
  /-- Emulated time is not ahead of real time. -/
  emulated_le : after.keeper.emulatedTime ≤ after.elapsed
  /-- It does not lag behind by more than it may. -/
  elapsed_le : after.elapsed ≤ after.keeper.emulatedTime + after.keeper.maxLag
  /-- The timekeeper has waited exactly if emulated time was ahead, -/
  waits_iff : before.now < after.now ↔ before.elapsed < before.keeper.emulatedTime
  /-- and for exactly as long as it was. -/
  waits : after.now = before.now + (before.keeper.emulatedTime - before.elapsed)
  /-- It has given up catching up exactly if emulated time did lag behind by more than it may, -/
  resyncs_iff : after.keeper.resyncs = before.keeper.resyncs + 1 ↔
    before.keeper.emulatedTime + before.keeper.maxLag < before.elapsed
  /-- with this moment as the new reference, -/
  resynced : before.keeper.emulatedTime + before.keeper.maxLag < before.elapsed →
    after.keeper =
      { before.keeper with
        reference := after.now
        emulated := 0
        resyncs := before.keeper.resyncs + 1 }
  /-- and otherwise it is what it was. -/
  kept : before.elapsed ≤ before.keeper.emulatedTime + before.keeper.maxLag →
    after.keeper = before.keeper
  /-- The cycles are ahead by less than what runs in a microsecond. -/
  counted_lt : after.counted * 1000000 < UInt64.size →
    after.counted * 1000000 < after.keeper.hz * (after.elapsed + 1)

/-- Emulated time that is not ahead is that of less cycles than run in one more microsecond. -/
theorem counted_lt_of_emulated_le (h : paced.Sound)
    (hahead : paced.keeper.emulatedTime ≤ paced.elapsed)
    (hfits : paced.counted * 1000000 < UInt64.size) :
    paced.counted * 1000000 < paced.keeper.hz * (paced.elapsed + 1) := by
  obtain ⟨hhz, -, hemulated⟩ := h
  have hcounted : paced.keeper.emulated = paced.counted := by
    rw [hemulated, saturate_of_lt (by omega)]
  have htime : paced.keeper.emulatedTime = paced.counted * 1000000 / paced.keeper.hz := by
    rw [Timekeeper.emulatedTime, hcounted, saturate_of_lt hfits]
  rw [htime] at hahead
  rw [Nat.mul_comm paced.keeper.hz]
  exact (Nat.div_lt_iff_lt_mul hhz).mp (Nat.lt_succ_of_le hahead)

/-- Synchronizing brings emulated time into the window. -/
theorem synchronizes_of_sound (h : paced.Sound) :
    paced.Synchronizes (paced.after .synchronize) := by
  have hcounted := counted_lt_of_emulated_le (sound_after h .synchronize)
  by_cases hlags : paced.keeper.Lags paced.now
  · have hlagged : paced.keeper.emulatedTime + paced.keeper.maxLag < paced.elapsed := hlags
    have hafter := after_synchronize_of_lags hlags
    -- both kinds of time begin again at this moment
    have hemulated : (paced.after .synchronize).keeper.emulatedTime = 0 := by
      rw [hafter]
      simp [Timekeeper.emulatedTime, Timekeeper.resync, Timekeeper.rebase, saturate]
    have helapsed : (paced.after .synchronize).elapsed = 0 := by
      rw [hafter]
      exact Nat.sub_self _
    have hnow : (paced.after .synchronize).now = paced.now := by rw [hafter]
    refine ⟨by omega, by omega, by omega, by omega, ⟨fun _ => hlagged, fun _ => ?_⟩, fun _ => ?_,
      fun hkept => by omega, hcounted (by omega)⟩
    · rw [hafter]
      rfl
    · rw [hafter]
      rfl
  · have hkept : paced.elapsed ≤ paced.keeper.emulatedTime + paced.keeper.maxLag :=
      Nat.not_lt.mp hlags
    have hafter := after_synchronize_of_not_lags hlags
    have hkeeper : (paced.after .synchronize).keeper = paced.keeper := by rw [hafter]
    have hnow : (paced.after .synchronize).now =
        paced.now + (paced.keeper.emulatedTime - paced.elapsed) := by rw [hafter]
    -- waiting takes real time to emulated time, and no further
    have helapsed : (paced.after .synchronize).elapsed =
        max paced.elapsed paced.keeper.emulatedTime := by
      have hreference := h.reference_le
      simp only [elapsed, hkeeper, hnow]
      omega
    rw [hkeeper] at hcounted
    -- no counter is the next one, not even modulo 64 bits
    have hsame : paced.keeper.resyncs ≠ paced.keeper.resyncs + 1 :=
      mt UInt64.left_eq_add.mp (by decide)
    refine ⟨?_, ?_, by omega, hnow, ?_, fun hlagged => by omega, fun _ => hkeeper, ?_⟩
    · rw [hkeeper]
      omega
    · rw [hkeeper]
      omega
    · rw [hkeeper]
      exact iff_of_false hsame (Nat.not_lt.mpr hkept)
    · rw [hkeeper]
      exact hcounted (by omega)

theorem sameSettings_synchronized (paced : Paced) (calls : List Timekeeper.Call) :
    ((paced.run calls).after .synchronize).keeper.SameSettings paced.keeper :=
  (sameSettings_after (paced.run calls) .synchronize).trans (sameSettings_run paced calls)

/-- A pacer allows the cycles of a slice when its timekeeper has synchronized. -/
theorem allowance_eq (paced : Paced) :
    Pacer.allowance paced.now (.cycleAccurate paced.keeper) =
      (⟨Pacer.maxInstructions, paced.keeper.cyclesPerSlice⟩,
        .cycleAccurate (paced.after .synchronize).keeper, (paced.after .synchronize).now) := by
  obtain ⟨hkeeper, hnow⟩ := parts_after_synchronize paced
  rw [Timekeeper.allowance_cycleAccurate, hkeeper, hnow,
    Timekeeper.sameSettings_synchronize.cyclesPerSlice]

/-- While the reference stays, the cycles that were counted in total are not ahead by as much as
runs in a microsecond. -/
theorem total_lt_of_sound (h : paced.Sound) (hbegins : paced.counted = 0)
    {calls : List Timekeeper.Call} (hcalls : ∀ call ∈ calls, call ≠ .rebase)
    (hkept : paced.resyncCount (calls ++ [.synchronize]) = 0)
    (hfits : (calls.map Timekeeper.Call.cycles).sum * 1000000 < UInt64.size) :
    (calls.map Timekeeper.Call.cycles).sum * 1000000 <
      paced.keeper.hz * (((paced.run calls).after .synchronize).elapsed + 1) := by
  have hcounted : ((paced.run calls).after .synchronize).counted =
      (calls.map Timekeeper.Call.cycles).sum := by
    have hall : ∀ call ∈ calls ++ [.synchronize], call ≠ .rebase :=
      List.forall_mem_append.mpr ⟨hcalls, by decide⟩
    have hsum := counted_run hall hkept
    rw [run_concat, hbegins, Nat.zero_add, List.map_append, List.sum_append] at hsum
    exact hsum
  have hahead := (synchronizes_of_sound (sound_run h calls)).counted_lt
  rw [hcounted, (sameSettings_synchronized paced calls).hz] at hahead
  exact hahead hfits

end Paced

end AppleOne
