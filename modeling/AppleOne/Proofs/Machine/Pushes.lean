import AppleOne.Proofs.Debugger.Coherence

/-!
# Debug snapshots that are pushed

While a host watches a machine, slices push debug snapshots to it. How long it is from one to the
next depends on whether the clock runs, but the timer holds a copy of that interval, made when it
was armed. So snapshots come when they are due only because nothing starts or stops the clock
without arming the timer: not even a breakpoint in the middle of a slice.

The invariant is that the timer is the one that would be started now, for the clock as it is now,
at the later of the last arming and the last push.

## Main definitions

* `Machine.armedAt?`: when an action arms the timer.
* `Machine.pushes`: the debug snapshots of a slice.
* `Machine.Marks`, and `Machine.marksAfter`: the last arming and the last push of a session.
* `Machine.Chronological`: time does not go back in a session.
* `Machine.Timed`: the invariant.

## Main results

* `Machine.arms_act`, `Machine.arms_settled`: what actions and stop events do to the timer.
* `Machine.slice_push_cases`: what a slice does to it after that.
* `Machine.timed_act`, `Machine.timed_run`: the invariant holds throughout a session.
* `Machine.pushes_when_due`: when a slice pushes a snapshot.
-/

namespace AppleOne

/-- The debug snapshot that an event shows. -/
def Event.view? : Event → Option Machine.View
  | debugSnapshot view => some view
  | _ => none

/-- A timekeeper may wait, but does not go back in time. -/
theorem Timekeeper.le_synchronize (keeper : Timekeeper) (now : Nat) :
    now ≤ (keeper.synchronize now).2 := by
  have hcases (elapsed emulated : Nat) :
      now ≤ (if elapsed < emulated then (keeper, now + (emulated - elapsed))
        else if keeper.maxLag < elapsed - emulated then (keeper.resync now, now)
        else (keeper, now)).2 := by
    split_ifs
    · exact Nat.le_add_right now _
    · exact Nat.le_refl now
    · exact Nat.le_refl now
  exact hcases _ _

theorem Pacer.le_allowance (now : Nat) (pacer : Pacer) : now ≤ (pacer.allowance now).2.2 := by
  unfold allowance
  -- the kernel would multiply by a million in unary if it saw how time is synchronized
  obtain ⟨synchronize, hsynchronize⟩ : ∃ synchronize, synchronize = Timekeeper.synchronize :=
    ⟨_, rfl⟩
  rw [← hsynchronize]
  cases pacer with
  | freeRun batch => exact Nat.le_refl now
  | cycleAccurate keeper =>
    have hwait : now ≤ (synchronize keeper now).2 := by
      rw [hsynchronize]
      exact keeper.le_synchronize now
    exact hwait

namespace Machine

/-! ## Arming and pushing -/

/-- When an action arms the timer, if it does. -/
def armedAt? (machine : Machine) : Action → Option Nat
  | .command time (.setDebuggerActive _) | .command time .step | .command time .pauseEmulation
  | .command time .resumeEmulation | .command time .start => some time.micros
  | .command time (.runToAddress target) =>
    match (machine.handle time (.runToAddress target)).1 with
    | .runToAddress (some _) => some time.micros
    | _ => none
  | .slice now =>
    if ((machine.slice now).1.filterMap Event.stop?).isEmpty then none
    else some (machine.slice now).2.2
  | _ => none

/-- The debug snapshots that a slice pushes. -/
def pushes (machine : Machine) (now : Nat) : List Machine.View :=
  (machine.slice now).1.filterMap Event.view?

/-- When an action pushes a debug snapshot, if it does. -/
def pushedAt? (machine : Machine) : Action → Option Nat
  | .slice now => if (machine.pushes now).isEmpty then none else some (machine.slice now).2.2
  | _ => none

/-- The time of the last arming and of the last push. -/
structure Marks where
  armed : Option Nat := none
  pushed : Option Nat := none
  deriving DecidableEq, Repr

namespace Marks

variable (marks : Marks)

/-- The later of the two. -/
def latest? : Option Nat := marks.armed.merge max marks.pushed

/-- The marks after the timer was armed, if it was. -/
def rearmed (armed? : Option Nat) : Marks := { marks with armed := armed? <|> marks.armed }

/-- The marks after a push, if there was one. -/
def fired (pushed? : Option Nat) : Marks := { marks with pushed := pushed? <|> marks.pushed }

/-- No mark is later than a given time. -/
structure Upto (now : Nat) : Prop where
  armed : ∀ armed ∈ marks.armed, armed ≤ now
  pushed : ∀ pushed ∈ marks.pushed, pushed ≤ now

variable {marks} {now later : Nat}

theorem Upto.mono (h : marks.Upto now) (hlater : now ≤ later) : marks.Upto later :=
  ⟨fun armed harmed => Nat.le_trans (h.armed armed harmed) hlater,
    fun pushed hpushed => Nat.le_trans (h.pushed pushed hpushed) hlater⟩

@[simp] theorem rearmed_none : marks.rearmed none = marks := rfl

@[simp] theorem fired_none : marks.fired none = marks := rfl

theorem Upto.rearmed (h : marks.Upto now) {armed? : Option Nat}
    (harmed : ∀ armed ∈ armed?, armed = now) : (marks.rearmed armed?).Upto now := by
  cases armed? with
  | none => exact h
  | some armed =>
    refine ⟨fun other hother => ?_, h.pushed⟩
    obtain rfl := Option.some.inj hother
    exact (harmed armed rfl).le

theorem latest?_rearmed (h : marks.Upto now) : (marks.rearmed (some now)).latest? = some now := by
  show (some now).merge max marks.pushed = some now
  cases hpushed : marks.pushed with
  | none => rfl
  | some pushed => exact congrArg some (Nat.max_eq_left (h.pushed pushed hpushed))

theorem latest?_fired (h : marks.Upto now) : (marks.fired (some now)).latest? = some now := by
  show marks.armed.merge max (some now) = some now
  cases harmed : marks.armed with
  | none => rfl
  | some armed => exact congrArg some (Nat.max_eq_right (h.armed armed harmed))

end Marks

/-- The marks after an action. -/
def Marks.after (marks : Marks) (machine : Machine) (action : Action) : Marks :=
  (marks.rearmed (machine.armedAt? action)).fired (machine.pushedAt? action)

/-- The marks after a session. -/
def marksAfter (machine : Machine) (marks : Marks) : List Action → Marks
  | [] => marks
  | action :: rest => (machine.act action).marksAfter (marks.after machine action) rest

/-- Whether the host watches the machine after an action. -/
def Action.watches (watched : Bool) : Action → Bool
  | .command _ (.setDebuggerActive active) => active
  | _ => watched

/-- Whether the host watches the machine after a session: what it said last. -/
def watchedAfter (actions : List Action) : Bool :=
  actions.foldl Action.watches false

/-! ## Time -/

/-- The time that an action is given. -/
def Action.time? : Action → Option Nat
  | .command time _ => some time.micros
  | .slice now | .reset now | .flashRom now _ => some now
  | .flash _ _ | .flashJson _ _ => none

/-- The time at which an action ends: a slice may have to wait. -/
def endTime (machine : Machine) (now : Nat) : Action → Nat
  | .slice now => (machine.slice now).2.2
  | action => action.time?.getD now

/-- Time does not go back in a session: no action is given an earlier time than that at which
the one before it ended. -/
def Chronological (machine : Machine) (now : Nat) : List Action → Prop
  | [] => True
  | action :: rest =>
    (∀ time ∈ action.time?, now ≤ time) ∧
      (machine.act action).Chronological (machine.endTime now action) rest

theorem le_endTime_slice (machine : Machine) (now : Nat) : now ≤ (machine.slice now).2.2 := by
  show now ≤ (machine.execute now).2
  cases h : machine.runner.clock.running with
  | true =>
    simp only [execute, Clock.slice_of_running h]
    exact Pacer.le_allowance now _
  | false =>
    simp only [execute, Clock.slice_of_not_running h]
    exact Nat.le_refl now

theorem le_endTime {machine : Machine} {now : Nat} {action : Action}
    (h : ∀ time ∈ action.time?, now ≤ time) : now ≤ machine.endTime now action := by
  cases action with
  | slice start => exact Nat.le_trans (h start rfl) (machine.le_endTime_slice start)
  | command time command => exact h time.micros rfl
  | reset time | flashRom time payload => exact h time rfl
  | flash id payload | flashJson id payload => exact Nat.le_refl now

/-- Seeking arms the timer unless the machine is at the target. -/
theorem armedAt?_runToAddress (machine : Machine) (time : Time) (target : UInt16) :
    machine.armedAt? (.command time (.runToAddress target)) =
      if machine.runner.cpu.registers.pc = target then none else some time.micros := by
  by_cases hpc : machine.runner.cpu.registers.pc = target
  · simp only [armedAt?, handle, seek, Runner.seek, if_pos hpc]
  · simp only [armedAt?, handle, seek, Runner.seek, if_neg hpc]

/-- A slice arms the timer at its end if its run noted a stop event. -/
theorem armedAt?_slice (machine : Machine) (now : Nat) :
    machine.armedAt? (.slice now) =
      (machine.execute now).1.runner.cpu.memo.map fun _ => (machine.slice now).2.2 := by
  simp only [armedAt?, slice_stops]
  cases (machine.execute now).1.runner.cpu.memo <;> rfl

/-- The timer is armed at the end of an action. -/
theorem eq_endTime_of_armedAt? {machine : Machine} {action : Action} {armed : Nat}
    (h : machine.armedAt? action = some armed) (now : Nat) :
    armed = machine.endTime now action := by
  cases action with
  | command time command =>
    cases command with
    | setDebuggerActive _ | step | pauseEmulation | resumeEmulation | start =>
      exact (Option.some.inj h).symm
    | runToAddress target =>
      rw [armedAt?_runToAddress] at h
      split at h
      · cases h
      · exact (Option.some.inj h).symm
    | _ => cases h
  | slice start =>
    rw [armedAt?_slice, Option.map_eq_some_iff] at h
    obtain ⟨_, -, rfl⟩ := h
    rfl
  | _ => cases h

/-! ## What actions do to the timer -/

/-- What debug snapshots depend on. -/
structure Watch where
  config : Config
  watched : Bool
  timer : Option SnapshotTimer
  running : Bool

/-- What the debug snapshots of a machine depend on. -/
def watch (machine : Machine) : Watch :=
  ⟨machine.config, machine.watched, machine.timer, machine.runner.clock.running⟩

/-- The interval between two debug snapshots. -/
def Watch.interval (watch : Watch) : Nat :=
  Config.micros (watch.config.pushInterval !watch.running)

theorem Watch.interval_eq (watch : Watch) :
    watch.interval = Config.micros
      (if watch.running then watch.config.pushMillis else watch.config.pausedPushMillis) := by
  obtain ⟨config, watched, timer, running⟩ := watch
  cases running <;> rfl

/-- The timer that arming starts. -/
def Watch.started (watch : Watch) (armed : Nat) : Option SnapshotTimer :=
  if watch.watched then some ⟨watch.interval, armed⟩ else none

/-- What happens to the timer from one machine to another, in between which it was armed or
not: it is left alone along with all else that debug snapshots depend on, or it is started for
the clock as it is then. -/
structure Arms (armed? : Option Nat) (before after : Machine) : Prop where
  config : after.watch.config = before.watch.config
  leaves : armed? = none → after.watch = before.watch
  starts : ∀ armed, armed? = some armed → after.timer = after.watch.started armed

theorem Arms.of_watch {before after : Machine} (h : after.watch = before.watch) :
    Arms none before after :=
  ⟨congrArg Watch.config h, fun _ => h, nofun⟩

theorem Arms.of_started {before after : Machine} {armed : Nat}
    (hconfig : after.watch.config = before.watch.config)
    (h : after.timer = after.watch.started armed) :
    Arms (some armed) before after := by
  refine ⟨hconfig, nofun, fun other hother => ?_⟩
  obtain rfl := Option.some.inj hother
  exact h

theorem arms_handle (machine : Machine) (time : Time) (command : Command) :
    Arms (machine.armedAt? (.command time command)) machine (machine.handle time command).2 := by
  cases command with
  | step | pauseEmulation | setDebuggerActive _ => exact .of_started rfl rfl
  | resumeEmulation | start =>
    have hconfig : (machine.resume time.micros).watch.config = machine.watch.config := by
      unfold resume
      split <;> rfl
    exact .of_started hconfig rfl
  | runToAddress target =>
    rw [armedAt?_runToAddress]
    -- there is nothing to seek if the machine is there already
    by_cases hpc : machine.runner.cpu.registers.pc = target
    · simp only [handle, seek, Runner.seek, if_pos hpc]
      exact .of_watch rfl
    · simp only [handle, seek, Runner.seek, if_neg hpc]
      exact .of_started rfl rfl
  | keyDown key =>
    obtain ⟨bus, hpressed⟩ := machine.exists_pressKey key
    exact .of_watch (congrArg watch hpressed :)
  | setBreakpoint address =>
    refine .of_watch ?_
    simp only [handle, changeBreakpoints, Runner.addBreakpoint]
    split <;> rfl
  | clearBreakpoint address =>
    refine .of_watch ?_
    simp only [handle, changeBreakpoints, Runner.removeBreakpoint]
    split <;> rfl
  | loadState document =>
    refine .of_watch ?_
    cases hfile : SaveFile.ofJson document with
    | error reason =>
      rw [handle_loadState_of_error hfile]
      rfl
    | ok file =>
      obtain ⟨text, hloaded⟩ := handle_loadState_of_ok hfile machine time
      rw [hloaded]
      rfl
  | setProfiling enabled =>
    obtain ⟨counts, hswitched⟩ := machine.exists_handle_setProfiling time enabled
    exact .of_watch (congrArg watch hswitched :)
  | setCycleAccurate enabled =>
    refine .of_watch ?_
    simp only [handle, setPaced, watch, withBus, withRunner, Clock.running_setMode]
  | clearAllBreakpoints | getBreakpoints | getMemoryRange _ _ | saveState | setRubout _
  | debugInfo | reset | getLogs => exact .of_watch rfl

theorem watch_onBank (machine : Machine) (id : String)
    (act : Bank → Except FlashRefusal Nat × Bank × List Note) :
    (machine.onBank id act).2.watch = machine.watch := by
  obtain ⟨bus, hacted⟩ := machine.exists_onBank id act
  rw [hacted]
  rfl

theorem watch_reset (machine : Machine) (now : Nat) : (machine.reset now).watch = machine.watch :=
  rfl

theorem watch_flashRom (machine : Machine) (now : Nat) (payload : List UInt8) :
    (machine.flashRom now payload).2.watch = machine.watch := by
  have hflash : (machine.flash romName payload).2.watch = machine.watch :=
    watch_onBank machine romName (·.flash payload)
  rcases machine.flashRom_cases now payload with h | h
  · rw [h, hflash]
  · rw [h, watch_reset, hflash]

/-- Only a slice pushes snapshots. What every other action does is settled by whether it arms
the timer. -/
theorem arms_act {action : Action} (hslice : ∀ now, action ≠ .slice now) (machine : Machine) :
    Arms (machine.armedAt? action) machine (machine.act action) ∧
      machine.pushedAt? action = none := by
  cases action with
  | command time command => exact ⟨arms_handle machine time command, rfl⟩
  | slice now => exact absurd rfl (hslice now)
  | reset now => exact ⟨.of_watch (watch_reset machine now), rfl⟩
  | flash id payload | flashJson id payload => exact ⟨.of_watch (watch_onBank machine id _), rfl⟩
  | flashRom now payload => exact ⟨.of_watch (watch_flashRom machine now payload), rfl⟩

/-! ## Slices -/

section Slice

variable (machine : Machine) (now : Nat)

/-- The machine after the run of a slice, when a stop event has been taken. -/
def settled : Machine := ((machine.execute now).1.stopEvents (machine.execute now).2).2

/-- A stop event arms the timer, and only a stop event can stop the clock. -/
theorem arms_settled (h : machine.control.Coherent) :
    Arms (machine.armedAt? (.slice now)) machine (machine.settled now) := by
  have hexecute : (machine.execute now).1.config = machine.config ∧
      (machine.execute now).1.watched = machine.watched ∧
      (machine.execute now).1.timer = machine.timer := ⟨rfl, rfl, rfl⟩
  rw [armedAt?_slice]
  unfold settled stopEvents
  -- a step is refused just when a stop event is noted, and nothing else stops the clock
  rcases execute_cases ⟨h.hook, h.memo⟩ now with ⟨hrefused, ⟨-, hmemo⟩, -⟩ |
    ⟨_, _, event, -, -, -, -, hpair⟩
  · have hmemo : (machine.execute now).1.runner.cpu.memo = none := hmemo
    rw [hmemo, Runner.takeStop_of_memo_eq_none hmemo]
    refine .of_watch ?_
    simp only [watch, running_execute, hrefused, Option.isNone_none, Bool.and_true]
    rfl
  · have hmemo : (machine.execute now).1.runner.cpu.memo = some event :=
      congrArg (fun pair : Pair => pair.1.memo) hpair
    unfold Runner.takeStop
    rw [hmemo]
    exact .of_started rfl rfl

/-- A snapshot is pushed when its timer has elapsed, and that is all that the events of a slice
do to what snapshots depend on. -/
theorem timedEvents_cases :
    (∃ timer, machine.timer = some timer ∧ timer.elapsed now = true ∧
      (machine.timedEvents now).1 = [.debugSnapshot machine.view] ∧
      (machine.timedEvents now).2.watch =
        { machine.watch with timer := some { timer with last := now } }) ∨
    ((∀ timer, machine.timer = some timer → timer.elapsed now = false) ∧
      machine.timedEvents now = ([], machine)) := by
  unfold timedEvents
  cases htimer : machine.timer with
  | none => exact .inr ⟨nofun, rfl⟩
  | some timer =>
    simp only
    cases helapsed : timer.elapsed now with
    | true => exact .inl ⟨timer, rfl, helapsed, rfl, rfl⟩
    | false =>
      refine .inr ⟨fun other hother => ?_, rfl⟩
      obtain rfl := Option.some.inj hother
      exact helapsed

theorem watch_logEvents : machine.logEvents.2.watch = machine.watch := rfl

theorem watch_videoEvents : machine.videoEvents.2.watch = machine.watch := by
  rw [machine_videoEvents]
  rfl

theorem watch_slice :
    (machine.slice now).2.1.watch =
      ((machine.settled now).videoEvents.2.timedEvents (machine.execute now).2).2.watch := by
  simp only [slice, watch_logEvents, settled]

theorem pushes_eq :
    machine.pushes now =
      ((machine.settled now).videoEvents.2.timedEvents (machine.execute now).2).1.filterMap
        Event.view? := by
  have hstops := filterMap_stopEvents Event.view? fun _ => rfl
  have hvideo := filterMap_videoEvents Event.view? fun _ => rfl
  have hlogs := filterMap_logEvents Event.view? fun _ => rfl
  simp only [pushes, slice, settled, List.filterMap_append, hstops, hvideo, hlogs, List.nil_append,
    List.append_nil]

/-- A slice pushes one snapshot if the timer has elapsed when a stop event has been taken, and
then waits anew; or it pushes none. -/
theorem slice_push_cases :
    (∃ timer, (machine.settled now).timer = some timer ∧
      timer.elapsed (machine.execute now).2 = true ∧
      (machine.pushes now).length = 1 ∧
      (machine.slice now).2.1.watch =
        { (machine.settled now).watch with
          timer := some { timer with last := (machine.execute now).2 } }) ∨
    ((∀ timer, (machine.settled now).timer = some timer →
        timer.elapsed (machine.execute now).2 = false) ∧
      machine.pushes now = [] ∧ (machine.slice now).2.1.watch = (machine.settled now).watch) := by
  have hvideo := (machine.settled now).watch_videoEvents
  rw [pushes_eq, watch_slice, ← hvideo, show (machine.settled now).timer = _ from
    congrArg Watch.timer hvideo.symm]
  rcases timedEvents_cases (machine.settled now).videoEvents.2 (machine.execute now).2 with
    ⟨timer, htimer, helapsed, hevents, hafter⟩ | ⟨helapsed, hevents⟩
  · refine .inl ⟨timer, htimer, helapsed, ?_, hafter⟩
    rw [hevents]
    rfl
  · rw [hevents]
    exact .inr ⟨helapsed, rfl, rfl⟩

end Slice

/-! ## The invariant -/

/-- After every action the timer runs since the later of the two marks, and it has the interval
for the clock as it is now. -/
structure Timed (now : Nat) (marks : Marks) (machine : Machine) : Prop where
  coherent : machine.control.Coherent
  upto : marks.Upto now
  timer_eq : machine.timer = marks.latest?.bind machine.watch.started

section Invariant

variable {machine : Machine} {marks : Marks} {now start : Nat} {action : Action}

/-- A timer that was started is that of a watched machine. -/
theorem Watch.of_started {watch : Watch} {last? : Option Nat} {timer : SnapshotTimer}
    (h : last?.bind watch.started = some timer) :
    watch.watched = true ∧ last? = some timer.last ∧ timer.interval = watch.interval := by
  obtain ⟨last, rfl, hstarted⟩ := Option.bind_eq_some_iff.mp h
  unfold started at hstarted
  split at hstarted
  · next hwatched =>
    obtain rfl := Option.some.inj hstarted
    exact ⟨hwatched, rfl, rfl⟩
  · cases hstarted

theorem timer_of_arms {armed? : Option Nat} {before after : Machine}
    (harms : Arms armed? before after) (hmarks : marks.Upto now)
    (harmed : ∀ armed ∈ armed?, armed = now)
    (htimer : before.timer = marks.latest?.bind before.watch.started) :
    after.timer = (marks.rearmed armed?).latest?.bind after.watch.started := by
  cases armed? with
  | none =>
    have hwatch : after.watch = before.watch := harms.leaves rfl
    rw [Marks.rearmed_none, hwatch, ← htimer]
    exact congrArg Watch.timer hwatch
  | some armed =>
    obtain rfl := harmed armed rfl
    rw [Marks.latest?_rearmed hmarks]
    exact harms.starts armed rfl

/-- The timer of a slice, when a stop event has been taken. -/
theorem timer_settled (h : Timed now marks machine) (hstart : now ≤ start) :
    (machine.settled start).timer =
      (marks.rearmed (machine.armedAt? (.slice start))).latest?.bind
        (machine.settled start).watch.started :=
  timer_of_arms (machine.arms_settled start h.coherent)
    (h.upto.mono (Nat.le_trans hstart (machine.le_endTime_slice start)))
    (fun _ harmed => eq_endTime_of_armedAt? harmed now) h.timer_eq

theorem timed_slice (h : Timed now marks machine) (hstart : now ≤ start) :
    Timed (machine.slice start).2.2 (marks.after machine (.slice start))
      (machine.slice start).2.1 := by
  have hupto : (marks.rearmed (machine.armedAt? (.slice start))).Upto (machine.slice start).2.2 :=
    (h.upto.mono (Nat.le_trans hstart (machine.le_endTime_slice start))).rearmed
      fun _ harmed => eq_endTime_of_armedAt? harmed now
  have hcoherent := coherent_slice h.coherent start
  have htimer := timer_settled h hstart
  unfold Marks.after
  rcases machine.slice_push_cases start with ⟨timer, hsettled, -, hpushes, hwatch⟩ |
    ⟨-, hpushes, hwatch⟩
  · -- the timer starts anew with the interval that it had
    have hpushed : machine.pushedAt? (.slice start) = some (machine.slice start).2.2 := by
      refine if_neg ?_
      rw [List.isEmpty_iff, ← List.length_eq_zero_iff, hpushes]
      decide
    obtain ⟨hwatched, -, hinterval⟩ := Watch.of_started (htimer.symm.trans hsettled)
    rw [hpushed]
    refine ⟨hcoherent, ⟨hupto.armed, ?_⟩, ?_⟩
    · rintro _ ⟨⟩
      exact Nat.le_refl _
    · rw [Marks.latest?_fired hupto, hwatch, Option.bind_some, Watch.started, if_pos hwatched]
      refine (congrArg Watch.timer hwatch).trans (congrArg some ?_)
      exact congrArg (SnapshotTimer.mk · _) hinterval
  · have hpushed : machine.pushedAt? (.slice start) = none :=
      if_pos (List.isEmpty_iff.mpr hpushes)
    rw [hpushed, Marks.fired_none]
    refine ⟨hcoherent, hupto, ?_⟩
    rw [hwatch, ← htimer]
    exact congrArg Watch.timer hwatch

/-- Every action keeps the timer in time. -/
theorem timed_act (h : Timed now marks machine) (htime : ∀ time ∈ action.time?, now ≤ time) :
    Timed (machine.endTime now action) (marks.after machine action) (machine.act action) := by
  by_cases hslice : ∃ start, action = .slice start
  · obtain ⟨start, rfl⟩ := hslice
    exact timed_slice h (htime start rfl)
  · obtain ⟨harms, hpushed⟩ := arms_act (fun start hstart => hslice ⟨start, hstart⟩) machine
    have hupto : marks.Upto (machine.endTime now action) := h.upto.mono (le_endTime htime)
    have harmed : ∀ armed ∈ machine.armedAt? action, armed = machine.endTime now action :=
      fun _ harmed => eq_endTime_of_armedAt? harmed now
    unfold Marks.after
    rw [hpushed, Marks.fired_none]
    exact ⟨coherent_act h.coherent action, hupto.rearmed harmed,
      timer_of_arms harms hupto harmed h.timer_eq⟩

/-- Throughout a session the timer is in time. -/
theorem timed_run {actions rest : List Action} (h : Timed now marks machine)
    (hchronological : machine.Chronological now (actions ++ rest)) :
    ∃ later, Timed later (machine.marksAfter marks actions) (machine.run actions) ∧
      (machine.run actions).Chronological later rest := by
  -- from the front, since the times of later actions depend on where the earlier ones ended
  induction actions generalizing machine marks now with
  | nil => exact ⟨now, h, hchronological⟩
  | cons action actions ih =>
    obtain ⟨htime, hrest⟩ := hchronological
    exact ih (timed_act h htime) hrest

end Invariant

/-! ## Sessions -/

section Session

variable {config : Config} {start now : Nat} {fresh machine : Machine} {actions : List Action}

/-- Taking a stop event changes neither the configuration nor whether the host watches. -/
theorem config_settled (machine : Machine) (now : Nat) :
    (machine.settled now).watch.config = machine.watch.config ∧
      (machine.settled now).watch.watched = machine.watch.watched := by
  unfold settled stopEvents
  split <;> exact ⟨rfl, rfl⟩

/-- Pushing a snapshot changes the timer alone. -/
theorem exists_watch_slice (machine : Machine) (now : Nat) :
    ∃ timer, (machine.slice now).2.1.watch = { (machine.settled now).watch with timer } := by
  rcases machine.slice_push_cases now with ⟨_, -, -, -, hwatch⟩ | ⟨-, -, hwatch⟩
  · exact ⟨_, hwatch⟩
  · exact ⟨_, hwatch⟩

theorem watched_handle (machine : Machine) (time : Time) (command : Command) :
    (machine.handle time command).2.watch.watched =
      (Action.command time command).watches machine.watch.watched := by
  have hleaves (h : machine.armedAt? (.command time command) = none) :
      (machine.handle time command).2.watch.watched = machine.watch.watched :=
    congrArg Watch.watched ((arms_handle machine time command).leaves h)
  cases command with
  | setDebuggerActive _ | step | pauseEmulation => rfl
  | resumeEmulation | start =>
    show (machine.resume time.micros).watched = machine.watched
    unfold resume
    split <;> rfl
  | runToAddress target =>
    simp only [handle, seek, Action.watches]
    split <;> rfl
  | _ => exact hleaves rfl

/-- The configuration stays, and the host watches the machine if it last said so. -/
theorem watched_act (machine : Machine) (action : Action) :
    (machine.act action).watch.config = machine.watch.config ∧
      (machine.act action).watch.watched = action.watches machine.watch.watched := by
  cases action with
  | command time command =>
    exact ⟨(arms_handle machine time command).config, watched_handle machine time command⟩
  | slice now =>
    obtain ⟨timer, hwatch⟩ := machine.exists_watch_slice now
    rw [act, hwatch]
    exact machine.config_settled now
  | reset now => exact ⟨rfl, rfl⟩
  | flash id _ | flashJson id _ =>
    rw [act]
    exact ⟨congrArg Watch.config (watch_onBank machine id _),
      congrArg Watch.watched (watch_onBank machine id _)⟩
  | flashRom now payload =>
    rw [act, watch_flashRom]
    exact ⟨rfl, rfl⟩

theorem watched_run (machine : Machine) (actions : List Action) :
    (machine.run actions).watch.config = machine.watch.config ∧
      (machine.run actions).watch.watched =
        actions.foldl Action.watches machine.watch.watched := by
  induction actions generalizing machine with
  | nil => exact ⟨rfl, rfl⟩
  | cons action actions ih =>
    obtain ⟨hconfig, hwatched⟩ := ih (machine.act action)
    rw [(machine.watched_act action).1] at hconfig
    rw [(machine.watched_act action).2] at hwatched
    exact ⟨hconfig, hwatched⟩

theorem timed_build? (hbuilt : build? config start = .ok fresh) : Timed start {} fresh := by
  have hcoherent := coherent_build? hbuilt
  obtain ⟨bus, -, rfl⟩ := eq_of_build? hbuilt
  exact ⟨hcoherent, ⟨nofun, nofun⟩, rfl⟩

/-- A slice of a machine whose timer is in time pushes a snapshot when one is due. -/
theorem pushes_ne_nil_iff {marks : Marks} {earlier : Nat} (h : Timed earlier marks machine)
    (hearlier : earlier ≤ now) :
    machine.pushes now ≠ [] ↔
      (machine.settled now).watch.watched = true ∧
      ∃ last, (marks.rearmed (machine.armedAt? (.slice now))).latest? = some last ∧
        (machine.settled now).watch.interval ≤ (machine.execute now).2 - last := by
  have htimer := timer_settled h hearlier
  constructor
  · intro hpushes
    rcases machine.slice_push_cases now with ⟨timer, hsettled, helapsed, -, -⟩ | ⟨-, hnone, -⟩
    · obtain ⟨hwatched, hlast, hinterval⟩ := Watch.of_started (htimer.symm.trans hsettled)
      exact ⟨hwatched, timer.last, hlast, hinterval ▸ of_decide_eq_true helapsed⟩
    · exact absurd hnone hpushes
  · rintro ⟨hwatched, last, hlast, hdue⟩
    rcases machine.slice_push_cases now with ⟨-, -, -, hpushes, -⟩ | ⟨helapsed, -, -⟩
    · intro hnone
      simp [hnone] at hpushes
    · rw [hlast, Option.bind_some, Watch.started, if_pos hwatched] at htimer
      have hnot := of_decide_eq_false (helapsed _ htimer)
      exact absurd hdue hnot

/-- A snapshot that is pushed just when the timer was armed restarts it as it is. -/
theorem watch_slice_of_armedAt? (h : machine.control.Coherent) {armed : Nat}
    (harmed : machine.armedAt? (.slice now) = some armed) :
    (machine.slice now).2.1.watch = (machine.settled now).watch := by
  rcases machine.slice_push_cases now with ⟨timer, hsettled, -, -, hwatch⟩ | ⟨-, -, hwatch⟩
  · obtain rfl := eq_endTime_of_armedAt? harmed 0
    have hstarted : (some (machine.execute now).2).bind (machine.settled now).watch.started =
        some timer := ((machine.arms_settled now h).starts _ harmed).symm.trans hsettled
    have hlast : (machine.execute now).2 = timer.last :=
      Option.some.inj (Watch.of_started hstarted).2.1
    rw [hwatch, hlast]
    exact congrArg (fun timer => { (machine.settled now).watch with timer }) hsettled.symm
  · exact hwatch

theorem timer_slice (h : machine.control.Coherent) (now : Nat) :
    (∀ armed, machine.armedAt? (.slice now) = some armed →
      (machine.slice now).2.1.timer = (machine.slice now).2.1.watch.started armed) ∧
    (machine.armedAt? (.slice now) = none → machine.pushedAt? (.slice now) = none →
      (machine.slice now).2.1.timer = machine.timer) := by
  have harms := machine.arms_settled now h
  constructor
  · intro armed harmed
    have hwatch := watch_slice_of_armedAt? h harmed
    rw [hwatch, ← harms.starts armed harmed]
    exact congrArg Watch.timer hwatch
  · intro harmed hpushed
    rcases machine.slice_push_cases now with ⟨_, -, -, hpushes, -⟩ | ⟨-, -, hwatch⟩
    · have hempty : (machine.pushes now).isEmpty = false := by
        rw [List.isEmpty_eq_false_iff, ← List.length_pos_iff_ne_nil, hpushes]
        decide
      simp [pushedAt?, hempty] at hpushed
    · exact congrArg Watch.timer (hwatch.trans (harms.leaves harmed))

/-- What arms the timer starts it for the clock as it is then, and what neither arms it nor
pushes a snapshot leaves it alone. -/
theorem timer_act (h : machine.control.Coherent) (action : Action) :
    (∀ armed, machine.armedAt? action = some armed →
      (machine.act action).timer = (machine.act action).watch.started armed) ∧
    (machine.armedAt? action = none → machine.pushedAt? action = none →
      (machine.act action).timer = machine.timer) := by
  by_cases hslice : ∃ now, action = .slice now
  · obtain ⟨now, rfl⟩ := hslice
    exact timer_slice h now
  · obtain ⟨harms, -⟩ := arms_act (fun now hnow => hslice ⟨now, hnow⟩) machine
    exact ⟨harms.starts, fun harmed _ => congrArg Watch.timer (harms.leaves harmed)⟩

/-- While the host watches, a slice pushes one debug snapshot if as much time as the state of the
clock at its end asks for has passed since the later of the last arming and the last push, and it
pushes none otherwise. The timer is armed by what `Machine.armedAt?` lists; what else an action
does leaves it alone. -/
theorem pushes_when_due (hbuilt : build? config start = .ok fresh)
    (hchronological : fresh.Chronological start (actions ++ [.slice now])) :
    ((fresh.run actions).pushes now).length ≤ 1 ∧
    ((fresh.run actions).pushes now ≠ [] ↔
      watchedAfter actions = true ∧
      ∃ last,
        ((fresh.marksAfter {} actions).rearmed
          ((fresh.run actions).armedAt? (.slice now))).latest? = some last ∧
        Config.micros
            (if ((fresh.run actions).slice now).2.1.runner.clock.running then config.pushMillis
              else config.pausedPushMillis) ≤
          ((fresh.run actions).slice now).2.2 - last) ∧
    ∀ action,
      (∀ armed, (fresh.run actions).armedAt? action = some armed →
        ((fresh.run actions).act action).timer =
          ((fresh.run actions).act action).watch.started armed) ∧
      ((fresh.run actions).armedAt? action = none → (fresh.run actions).pushedAt? action = none →
        ((fresh.run actions).act action).timer = (fresh.run actions).timer) := by
  obtain ⟨earlier, htimed, htime, -⟩ := timed_run (timed_build? hbuilt) hchronological
  refine ⟨?_, ?_, timer_act htimed.coherent⟩
  · rcases (fresh.run actions).slice_push_cases now with ⟨_, -, -, hpushes, -⟩ | ⟨-, hnone, -⟩
    · exact hpushes.le
    · rw [hnone]
      exact Nat.zero_le 1
  · obtain ⟨hconfig, hwatched⟩ := fresh.watched_run actions
    obtain ⟨hfresh, hunwatched⟩ :
        fresh.watch.config = config ∧ fresh.watch.watched = false := by
      obtain ⟨bus, -, rfl⟩ := eq_of_build? hbuilt
      exact ⟨rfl, rfl⟩
    obtain ⟨hsettled, hstill⟩ := (fresh.run actions).config_settled now
    have hrunning : ((fresh.run actions).settled now).watch.running =
        ((fresh.run actions).slice now).2.1.watch.running := by
      obtain ⟨timer, hwatch⟩ := (fresh.run actions).exists_watch_slice now
      rw [hwatch]
    rw [pushes_ne_nil_iff htimed (htime now rfl), Watch.interval_eq, hrunning, hsettled, hconfig,
      hfresh, hstill, hwatched, hunwatched]
    rfl

/-- The clock is started at once, and stopped by a breakpoint in the first slice. The snapshot
comes with the interval of a machine that is paused, counted from the stop. -/
theorem pushes_when_due_after_stop :
    ∃ fresh, build? {} 0 = .ok fresh ∧
      ((fresh.run [.command ⟨0, 0⟩ (.setDebuggerActive true),
        .command ⟨0, 0⟩ (.setBreakpoint 0), .command ⟨0, 0⟩ .start, .slice 7]).pushes 100007) ≠
        [] := by
  obtain ⟨fresh, hbuilt⟩ := exists_build? {} 0
  refine ⟨fresh, hbuilt, ?_⟩
  have hrun : ((build? {} 0).toOption.map fun fresh =>
      let actions := [.command ⟨0, 0⟩ (.setDebuggerActive true),
        .command ⟨0, 0⟩ (.setBreakpoint 0), .command ⟨0, 0⟩ .start, .slice 7]
      let machine := fresh.run actions
      ((fresh.marksAfter {} actions).rearmed (machine.armedAt? (.slice 100007)),
        (machine.slice 100007).2.1.runner.clock.running, (machine.slice 100007).2.2,
        (fresh.run (actions.take 3)).endTime 0 (.slice 7))) =
      some (⟨some 7, none⟩, false, 100007, 7) := by
    decide +kernel
  rw [hbuilt] at hrun
  obtain ⟨hmarks, hrun⟩ := Prod.mk.inj (Option.some.inj hrun)
  obtain ⟨hrunning, hrun⟩ := Prod.mk.inj hrun
  obtain ⟨hended, hstopped⟩ := Prod.mk.inj hrun
  refine (pushes_when_due hbuilt ?_).2.1.mpr ⟨rfl, 7, ?_, ?_⟩
  · refine ⟨?_, ?_, ?_, ?_, ?_, trivial⟩ <;> rintro _ ⟨⟩
    · exact Nat.zero_le _
    · exact Nat.zero_le _
    · exact Nat.zero_le _
    · exact Nat.zero_le _
    · exact hstopped.le.trans (by decide)
  · rw [hmarks]
    rfl
  · rw [hrunning, hended]
    decide

end Session

end Machine

end AppleOne
