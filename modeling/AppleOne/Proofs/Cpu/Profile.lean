import AppleOne.Proofs.Cpu.Execution
import AppleOne.Proofs.Cpu.Simulation
import AppleOne.Wire.View
import Mathlib.Data.Set.Card

/-!
# What the profile counts

The profile is a histogram of the instructions that were carried out while somebody wanted to
know. The history of a session tells which these are: an instruction counts if profiling was on at
its time, and has not gone from off to on since. The counters have 64 bits, so they hold the
numbers up to a multiple of 2^64.

## Main definitions

* `Cpu.Event`, `Cpu.history`: what happens in a session, as far as the profile is concerned.
* `Cpu.Counted`, `Cpu.executions`: the instructions that count, and how many there are.
* `Cpu.total`: the number that a counter stands for.
* `Cpu.IsHistogram`: a list of counts, in its order.

## Main results

* `Cpu.perform_record`, `Cpu.session_record`: the profile is made by the events one after the other.
* `Cpu.executions_concat`, `Cpu.total_concat`: what the next event adds to these numbers.
* `Cpu.profile_exact`: the profile after any session.
-/

namespace AppleOne.Cpu

/-! ## Events -/

/-- What matters, or might matter, to a profile. -/
inductive Event where
  /-- An instruction was carried out. -/
  | executed (opcode : UInt8)
  /-- The handler of an interrupt was entered. -/
  | entered (interrupt : Interrupt)
  /-- A step was refused. -/
  | refused
  /-- Somebody said whether profiling is to be on. -/
  | switched (enabled : Bool)
  deriving DecidableEq, Repr

variable {M σ : Type} [Memory M]

/-- What happens at the next step. -/
def stepEvent (cpu : Cpu M σ) : Event :=
  if cpu.step.1.wasRefused then .refused
  else match cpu.registers.due? with
    | some interrupt => .entered interrupt
    | none => .executed (Memory.read cpu.memory cpu.registers.pc).1

/-- What happens at the steps of a run to a target. -/
def eventsUntil (target : UInt64) : Nat → Cpu M σ → List Event
  | 0, _ => []
  | steps + 1, cpu =>
    if cpu.registers.cycles < target then
      cpu.stepEvent ::
        if cpu.step.1.wasRefused then [] else eventsUntil target steps cpu.step.2
    else []

/-- What happens when something is asked of the processor. -/
def events (cpu : Cpu M σ) : Request σ → List Event
  | .step => [cpu.stepEvent]
  | .singleStep => [cpu.bypassOnce.stepEvent]
  | .runFor budget => cpu.eventsUntil (cpu.registers.cycles + budget) maxSteps
  | .switchProfiling enabled => [.switched enabled]
  | _ => []

/-- What happens in a session, in order. -/
def history (cpu : Cpu M σ) : List (Request σ) → List Event
  | [] => []
  | request :: rest => cpu.events request ++ (cpu.perform request).2.history rest

/-! ## The instructions that count -/

/-- Whether profiling is on after some events, if it was as given before them. -/
def onAfter (on : Bool) (events : List Event) : Bool :=
  events.foldl (fun on event =>
    match event with
    | .switched enabled => enabled
    | _ => on) on

/-- At this place among the events profiling goes from off to on. -/
def SwitchedOn (on : Bool) (events : List Event) (index : Nat) : Prop :=
  events[index]? = some (.switched true) ∧ onAfter on (events.take index) = false

/-- At this place among the events there is an instruction that counts. -/
structure Counted (on : Bool) (events : List Event) (opcode : UInt8) (index : Nat) : Prop where
  executed : events[index]? = some (.executed opcode)
  profiled : onAfter on (events.take index) = true
  since : ∀ later, index < later → ¬ SwitchedOn on events later

/-- The number of instructions with an opcode that count. -/
noncomputable def executions (on : Bool) (events : List Event) (opcode : UInt8) : Nat :=
  {index | Counted on events opcode index}.ncard

variable {on : Bool} {events : List Event} {event : Event} {opcode : UInt8} {index : Nat}

theorem onAfter_concat (on : Bool) (events : List Event) (event : Event) :
    onAfter on (events ++ [event]) =
      match event with
      | .switched enabled => enabled
      | _ => onAfter on events :=
  List.foldl_concat ..

theorem lt_length_of_getElem? {event : Event} (h : events[index]? = some event) :
    index < events.length :=
  (List.getElem?_eq_some_iff.mp h).1

/-- An event among others that are followed by one more is one of them, or this one. -/
theorem getElem?_concat_eq_some_iff {other : Event} :
    (events ++ [event])[index]? = some other ↔
      events[index]? = some other ∨ index = events.length ∧ event = other := by
  rcases Nat.lt_trichotomy index events.length with hlt | rfl | hgt
  · rw [List.getElem?_append_left hlt]
    simp [Nat.ne_of_lt hlt]
  · simp
  · have hle : (events ++ [event]).length ≤ index := by simpa using hgt
    simp [List.getElem?_eq_none hle, List.getElem?_eq_none (Nat.le_of_lt hgt), Nat.ne_of_gt hgt]

theorem switchedOn_concat : SwitchedOn on (events ++ [event]) index ↔
    SwitchedOn on events index ∨
      index = events.length ∧ event = .switched true ∧ onAfter on events = false := by
  unfold SwitchedOn
  rw [getElem?_concat_eq_some_iff, or_and_right]
  refine or_congr (and_congr_right fun hevent => ?_) ?_
  · rw [List.take_append_of_le_length (Nat.le_of_lt (lt_length_of_getElem? hevent))]
  · rw [and_assoc]
    refine and_congr_right ?_
    rintro rfl
    rw [List.take_left]

/-- The next event counts itself or not, and the instructions before it count unless it switches
profiling on. -/
theorem counted_concat : Counted on (events ++ [event]) opcode index ↔
    Counted on events opcode index ∧ ¬ (event = .switched true ∧ onAfter on events = false) ∨
      index = events.length ∧ event = .executed opcode ∧ onAfter on events = true := by
  constructor
  · rintro ⟨hexecuted, hprofiled, hsince⟩
    rcases getElem?_concat_eq_some_iff.mp hexecuted with hevent | ⟨rfl, rfl⟩
    · -- one of the earlier instructions: the last event must not be where profiling begins anew
      have hlt := lt_length_of_getElem? hevent
      rw [List.take_append_of_le_length (Nat.le_of_lt hlt)] at hprofiled
      refine .inl ⟨⟨hevent, hprofiled, fun later hlater hon => ?_⟩, fun hlast => ?_⟩
      · exact hsince later hlater (switchedOn_concat.mpr (.inl hon))
      · exact hsince _ hlt (switchedOn_concat.mpr (.inr ⟨rfl, hlast⟩))
    · rw [List.take_left] at hprofiled
      exact .inr ⟨rfl, rfl, hprofiled⟩
  · rintro (⟨⟨hexecuted, hprofiled, hsince⟩, hlast⟩ | ⟨rfl, rfl, hon⟩)
    · have hlt := lt_length_of_getElem? hexecuted
      refine ⟨getElem?_concat_eq_some_iff.mpr (.inl hexecuted), ?_, fun later hlater hon => ?_⟩
      · rw [List.take_append_of_le_length (Nat.le_of_lt hlt)]
        exact hprofiled
      · rcases switchedOn_concat.mp hon with hon | ⟨-, hon⟩
        · exact hsince later hlater hon
        · exact hlast hon
    · refine ⟨getElem?_concat_eq_some_iff.mpr (.inr ⟨rfl, rfl⟩), ?_, fun later hlater hon => ?_⟩
      · rw [List.take_left]
        exact hon
      · rcases switchedOn_concat.mp hon with hon | ⟨rfl, -⟩
        · exact Nat.lt_asymm hlater (lt_length_of_getElem? hon.1)
        · exact Nat.lt_irrefl _ hlater

theorem executions_nil : executions on [] opcode = 0 := by
  have hnone : {index | Counted on [] opcode index} = ∅ :=
    Set.eq_empty_of_forall_notMem fun _ h => by simpa using h.executed
  rw [executions, hnone, Set.ncard_empty]

/-- What the next event does to the number of instructions that count. -/
theorem executions_concat : executions on (events ++ [event]) opcode =
    if event = .switched true ∧ onAfter on events = false then 0
    else if event = .executed opcode ∧ onAfter on events = true then
      executions on events opcode + 1
    else executions on events opcode := by
  unfold executions
  simp only [counted_concat]
  split
  · next hswitch =>
    simp [hswitch]
  · next hswitch =>
    simp only [hswitch, not_false_eq_true, and_true]
    split
    · next hexecuted =>
      -- the last event is counted now, and it is at a place that was none before
      have hinsert : {index | Counted on events opcode index ∨
          index = events.length ∧ event = .executed opcode ∧ onAfter on events = true} =
            insert events.length {index | Counted on events opcode index} := by
        ext index
        simp [hexecuted, or_comm]
      have hnew : events.length ∉ {index | Counted on events opcode index} := fun h =>
        Nat.lt_irrefl _ (lt_length_of_getElem? h.executed)
      have hfinite : {index | Counted on events opcode index}.Finite :=
        (Set.finite_lt_nat events.length).subset fun index h => lt_length_of_getElem? h.executed
      rw [hinsert, Set.ncard_insert_of_notMem hnew hfinite]
    · next hexecuted => simp [hexecuted]

open Classical in
/-- The number that the counter of an opcode stands for: that of the instructions that count, and
what the counter held before unless profiling has been switched on. -/
noncomputable def total (on : Bool) (events : List Event) (opcode : UInt8) (before : UInt64) : Nat :=
  (if ∃ index, SwitchedOn on events index then 0 else before.toNat) + executions on events opcode

theorem total_nil (before : UInt64) : total on [] opcode before = before.toNat := by
  have hnone : ¬ ∃ index, SwitchedOn on [] index := by
    rintro ⟨index, hevent, -⟩
    simp at hevent
  rw [total, if_neg hnone, executions_nil, Nat.add_zero]

theorem total_concat (before : UInt64) : total on (events ++ [event]) opcode before =
    if event = .switched true ∧ onAfter on events = false then 0
    else if event = .executed opcode ∧ onAfter on events = true then
      total on events opcode before + 1
    else total on events opcode before := by
  unfold total
  rw [executions_concat]
  by_cases hswitch : event = .switched true ∧ onAfter on events = false
  · have hsome : ∃ index, SwitchedOn on (events ++ [event]) index :=
      ⟨_, switchedOn_concat.mpr (.inr ⟨rfl, hswitch⟩)⟩
    rw [if_pos hsome, if_pos hswitch, if_pos hswitch]
  · have hsame : (∃ index, SwitchedOn on (events ++ [event]) index) ↔
        ∃ index, SwitchedOn on events index :=
      exists_congr fun index => by
        rw [switchedOn_concat, or_iff_left fun hlast => hswitch hlast.2]
    rw [hsame, if_neg hswitch, if_neg hswitch]
    by_cases hexecuted : event = .executed opcode ∧ onAfter on events = true
    · rw [if_pos hexecuted, if_pos hexecuted, Nat.add_assoc]
    · rw [if_neg hexecuted, if_neg hexecuted]

/-! ## The counters -/

/-- The counter of an opcode. -/
def counter (counts : Vector UInt64 256) (opcode : UInt8) : UInt64 :=
  have h := UInt8.toNat_lt opcode
  counts[opcode.toNat]

theorem counter_zeros (opcode : UInt8) : counter (Vector.replicate 256 0) opcode = 0 :=
  Vector.getElem_replicate _

/-- What an event does to the switch and to the counters. -/
def Event.record (event : Event) (profile : Bool × Vector UInt64 256) :
    Bool × Vector UInt64 256 :=
  match event with
  | executed opcode =>
    have h := UInt8.toNat_lt opcode
    if profile.1 then (true, profile.2.set opcode.toNat (counter profile.2 opcode + 1)) else profile
  | switched enabled =>
    if enabled && !profile.1 then (true, Vector.replicate 256 0) else (enabled, profile.2)
  | entered _ | refused => profile

/-- The switch and the counters. -/
def profiler (cpu : Cpu M σ) : Bool × Vector UInt64 256 :=
  (cpu.profiling, cpu.counts)

/-- The opcode that a step gives back is the byte that it has fetched. -/
theorem opcode_step (r : Registers) (memory : M) :
    (r.step.run memory).1.2 =
      match r.due? with
      | some _ => none
      | none => some (Memory.read memory r.pc).1 := by
  cases hdue : r.due? with
  | some interrupt => rw [step_of_due hdue, Transaction.run_bind]; rfl
  | none =>
    rw [step_of_not_due hdue]
    simp only [Transaction.run, Transaction.run_bind]
    rfl

theorem step_record (cpu : Cpu M σ) :
    cpu.step.2.profiler = cpu.stepEvent.record cpu.profiler := by
  obtain ⟨memo, hstep | hstep⟩ := cpu.step_cases
  · have hran : cpu.step.1.wasRefused = false := by rw [hstep, advance_wasRefused]
    have hopcode := opcode_step cpu.registers cpu.memory
    rw [stepEvent, hran, if_neg Bool.false_ne_true, hstep, advance_eq]
    simp only [profiler, countsAfter]
    cases hdue : cpu.registers.due? with
    | some interrupt =>
      simp only [hdue] at hopcode
      rw [hopcode]
      rfl
    | none =>
      simp only [hdue] at hopcode
      rw [hopcode]
      simp only [count, Event.record]
      split
      · next hon => exact Prod.ext hon rfl
      · rfl
  · rw [stepEvent, hstep]
    rfl

theorem runUntil_record (target : UInt64) (steps : Nat) (cpu : Cpu M σ) :
    (cpu.runUntil target steps).profiler =
      (cpu.eventsUntil target steps).foldl (fun profile event => event.record profile)
        cpu.profiler := by
  induction steps generalizing cpu with
  | zero => rfl
  | succ steps ih =>
    unfold runUntil eventsUntil
    split
    · simp only [List.foldl_cons, ← step_record]
      split
      · rfl
      · exact ih _
    · rfl

/-- The events of a request make the profile after it. -/
theorem perform_record (cpu : Cpu M σ) (request : Request σ) :
    (cpu.perform request).2.profiler =
      (cpu.events request).foldl (fun profile event => event.record profile) cpu.profiler := by
  cases request with
  | step => exact step_record cpu
  | singleStep => exact step_record cpu.bypassOnce
  | runFor budget => exact runUntil_record _ _ cpu
  | switchProfiling enabled =>
    simp only [perform, switchProfiling, events, List.foldl_cons, List.foldl_nil, Event.record,
      profiler]
    split <;> rfl
  | _ => rfl

theorem session_record (cpu : Cpu M σ) (requests : List (Request σ)) :
    (cpu.session requests).2.profiler =
      (cpu.history requests).foldl (fun profile event => event.record profile) cpu.profiler := by
  induction requests generalizing cpu with
  | nil => rfl
  | cons request rest ih =>
    rw [history, List.foldl_append, ← perform_record]
    exact ih (cpu.perform request).2

theorem fst_record (event : Event) (profile : Bool × Vector UInt64 256) :
    (event.record profile).1 =
      match event with
      | .switched enabled => enabled
      | _ => profile.1 := by
  cases event with
  | executed opcode =>
    simp only [Event.record]
    split
    · next hon => exact hon.symm
    · rfl
  | switched enabled =>
    simp only [Event.record]
    split
    · next hswitch => exact (Bool.and_eq_true_iff.mp hswitch).1.symm
    · rfl
  | entered | refused => rfl

theorem counter_record (event : Event) (profile : Bool × Vector UInt64 256) (opcode : UInt8) :
    counter (event.record profile).2 opcode =
      if event = .switched true ∧ profile.1 = false then 0
      else if event = .executed opcode ∧ profile.1 = true then counter profile.2 opcode + 1
      else counter profile.2 opcode := by
  obtain ⟨on, counts⟩ := profile
  cases event with
  | executed other =>
    simp only [Event.record, reduceCtorEq, false_and, if_false, Event.executed.injEq]
    cases on with
    | false => simp
    | true =>
      simp only [if_true, and_true, counter, Vector.getElem_set, UInt8.toNat_inj]
      split
      · next hsame => rw [hsame]
      · rfl
  | switched enabled => cases enabled <;> cases on <;> simp [Event.record, counter_zeros]
  | entered | refused => simp [Event.record]

/-- The induction is on the events. The one that comes last empties the counters, raises one of them
or leaves them alone, and does the same to the numbers that they stand for. -/
theorem counter_foldl_record (on : Bool) (counts : Vector UInt64 256) (events : List Event)
    (opcode : UInt8) :
    let after := events.foldl (fun profile event => event.record profile) (on, counts)
    after.1 = onAfter on events ∧
      (counter after.2 opcode).toNat =
        total on events opcode (counter counts opcode) % UInt64.size := by
  induction events using List.reverseRecOn with
  | nil =>
    refine ⟨rfl, ?_⟩
    rw [total_nil]
    exact (Nat.mod_eq_of_lt (UInt64.toNat_lt _)).symm
  | append_singleton events event ih =>
    obtain ⟨hon, hcount⟩ := ih
    rw [List.foldl_concat]
    refine ⟨by rw [fst_record, onAfter_concat, hon], ?_⟩
    rw [counter_record, hon, total_concat]
    split
    · rfl
    · split
      · rw [UInt64.toNat_add, hcount]
        exact Nat.mod_add_mod _ _ _
      · exact hcount

/-! ## The list -/

/-- A list of all opcodes with a count other than zero, each of them once with its assembler name.
Larger counts come first, and the smaller opcode of equal counts. -/
structure IsHistogram (profile : List ProfileEntry) (counts : UInt8 → UInt64) : Prop where
  mem_iff : ∀ entry, entry ∈ profile ↔ entry.count = counts entry.opcode ∧ entry.count ≠ 0
  nodup : (profile.map ProfileEntry.opcode).Nodup
  pairwise : profile.Pairwise fun first second =>
    second.count < first.count ∨ first.count = second.count ∧ first.opcode < second.opcode
  mnemonic : ∀ entry ∈ profile, entry.encode.get? "mnemonic" =
    some (.string (Instruction.decode entry.opcode).mnemonic)

/-- The opcodes with their counts, in the order of the opcodes. -/
def entriesOf (counts : Vector UInt64 256) : List ProfileEntry :=
  counts.toList.mapIdx fun opcode count => ⟨opcode.toUInt8, count⟩

theorem mem_entriesOf {counts : Vector UInt64 256} {entry : ProfileEntry} :
    entry ∈ entriesOf counts ↔ entry.count = counter counts entry.opcode := by
  obtain ⟨opcode, count⟩ := entry
  simp only [entriesOf, List.mem_mapIdx, ProfileEntry.mk.injEq, counter]
  constructor
  · rintro ⟨index, hindex, rfl, rfl⟩
    have hlt : index < 256 := by simpa using hindex
    have hsame : index.toUInt8.toNat = index := UInt8.toNat_ofNat_of_lt hlt
    simp only [hsame, Vector.getElem_toList]
  · intro hcount
    refine ⟨opcode.toNat, by simpa using UInt8.toNat_lt opcode, UInt8.ofNat_toNat, ?_⟩
    rw [Vector.getElem_toList, hcount]

theorem nodup_entriesOf (counts : Vector UInt64 256) :
    ((entriesOf counts).map ProfileEntry.opcode).Nodup := by
  have hopcodes : (entriesOf counts).map ProfileEntry.opcode =
      (List.range 256).map Nat.toUInt8 := by
    refine List.ext_getElem (by simp [entriesOf]) fun index _ _ => ?_
    simp [entriesOf]
  rw [hopcodes]
  refine List.nodup_range.map_on fun first hfirst second hsecond hsame => ?_
  rw [List.mem_range] at hfirst hsecond
  have htoNat (number : Nat) (hlt : number < 256) : number.toUInt8.toNat = number :=
    UInt8.toNat_ofNat_of_lt hlt
  rw [← htoNat first hfirst, ← htoNat second hsecond, hsame]

omit [Memory M] in
theorem isHistogram_profile (cpu : Cpu M σ) : IsHistogram cpu.profile (counter cpu.counts) := by
  have hperm : cpu.profile.Perm ((entriesOf cpu.counts).filter (·.count != 0)) :=
    List.mergeSort_perm _ _
  have hnodup : (cpu.profile.map ProfileEntry.opcode).Nodup :=
    (hperm.map _).nodup_iff.mpr ((nodup_entriesOf cpu.counts).sublist (List.filter_sublist.map _))
  -- the order is total and transitive, so the sort has put the entries into it
  have htrans (a b c : ProfileEntry) (hab : a.precedes b = true) (hbc : b.precedes c = true) :
      a.precedes c = true := by
    simp only [ProfileEntry.precedes, Bool.or_eq_true, Bool.and_eq_true, decide_eq_true_eq,
      beq_iff_eq] at hab hbc ⊢
    grind
  have htotal (a b : ProfileEntry) : (a.precedes b || b.precedes a) = true := by
    simp only [ProfileEntry.precedes, Bool.or_eq_true, Bool.and_eq_true, decide_eq_true_eq,
      beq_iff_eq]
    grind
  have hsorted : cpu.profile.Pairwise fun first second => first.precedes second = true :=
    List.pairwise_mergeSort htrans htotal _
  refine ⟨fun entry => ?_, hnodup, ?_, fun _ _ => rfl⟩
  · rw [hperm.mem_iff, List.mem_filter, mem_entriesOf, bne_iff_ne]
  · refine (hsorted.and (List.pairwise_map.mp hnodup)).imp ?_
    rintro first second ⟨hprecedes, hother⟩
    simp only [ProfileEntry.precedes, Bool.or_eq_true, Bool.and_eq_true, decide_eq_true_eq,
      beq_iff_eq] at hprecedes
    exact hprecedes.imp_right fun h => ⟨h.1, UInt8.lt_of_le_of_ne h.2 hother⟩

/-- Nothing but instructions and the switch concern the counters. -/
theorem foldl_record_of_uncounted {events : List Event}
    (huncounted : ∀ event ∈ events, event = .refused ∨ ∃ interrupt, event = .entered interrupt)
    (profile : Bool × Vector UInt64 256) :
    events.foldl (fun profile event => event.record profile) profile = profile := by
  induction events with
  | nil => rfl
  | cons event rest ih =>
    obtain ⟨hevent, hrest⟩ := List.forall_mem_cons.mp huncounted
    rw [List.foldl_cons]
    obtain rfl | ⟨interrupt, rfl⟩ := hevent
    · exact ih hrest
    · exact ih hrest

omit [Memory M] in
/-- The list does not depend on anything but the counters. -/
theorem profile_congr {cpu cpu' : Cpu M σ} (h : cpu.counts = cpu'.counts) :
    cpu.profile = cpu'.profile := by
  unfold profile
  rw [h]

omit [Memory M] in
theorem profile_of_zeros {cpu : Cpu M σ} (h : cpu.counts = Vector.replicate 256 0) :
    cpu.profile = [] := by
  refine List.eq_nil_iff_forall_not_mem.mpr fun entry hentry => ?_
  obtain ⟨hcount, hpos⟩ := ((isHistogram_profile cpu).mem_iff entry).mp hentry
  rw [h, counter_zeros] at hcount
  exact hpos hcount

/-- What is to be said of the profile of a processor, if profiling was on or off and the counts
were as given before some events. -/
structure Profiles (cpu : Cpu M σ) (on : Bool) (before : UInt8 → UInt64) (events : List Event) :
    Prop where
  histogram : IsHistogram cpu.profile (counter cpu.counts)
  /-- Counts are numbers of instructions, as far as 64 bits go. -/
  counts : ∀ opcode, (counter cpu.counts opcode).toNat =
    total on events opcode (before opcode) % UInt64.size
  /-- What is nothing but refused steps and interrupt entries leaves the profile as it is. -/
  uncounted : ∀ request,
    (∀ event ∈ cpu.events request, event = .refused ∨ ∃ interrupt, event = .entered interrupt) →
      (cpu.perform request).2.profile = cpu.profile
  /-- So does switching profiling off, -/
  switchedOff : (cpu.perform (.switchProfiling false)).2.profile = cpu.profile
  /-- and switching it on while it is on. -/
  staysOn : cpu.profiling = true →
    (cpu.perform (.switchProfiling true)).2.profile = cpu.profile
  /-- Otherwise switching it on begins a new profile. -/
  switchedOn : cpu.profiling = false → (cpu.perform (.switchProfiling true)).2.profile = []

/-- After any session the profile is the histogram of the instructions that were carried out while
profiling was on, since it last went from off to on. -/
theorem profile_exact (cpu : Cpu M σ) (requests : List (Request σ)) :
    (cpu.session requests).2.Profiles cpu.profiling (counter cpu.counts) (cpu.history requests) := by
  have hrecord := session_record cpu requests
  generalize (cpu.session requests).2 = final at hrecord
  refine ⟨isHistogram_profile final, fun opcode => ?_, fun request huncounted => ?_, rfl, ?_, ?_⟩
  · have hcounts : final.counts = _ := congrArg Prod.snd hrecord
    rw [hcounts]
    exact (counter_foldl_record cpu.profiling cpu.counts (cpu.history requests) opcode).2
  · have hprofiler := perform_record final request
    rw [foldl_record_of_uncounted huncounted] at hprofiler
    exact profile_congr (congrArg Prod.snd hprofiler)
  · intro hon
    have hcounts : (final.perform (.switchProfiling true)).2.counts = final.counts := by
      simp [perform, switchProfiling, hon]
    exact profile_congr hcounts
  · intro hoff
    exact profile_of_zeros (by simp [perform, switchProfiling, hoff])

end AppleOne.Cpu
