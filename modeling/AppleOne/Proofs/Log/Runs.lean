import AppleOne.Log.Logger
import Mathlib.Data.List.Chain
import Mathlib.Data.List.DropRight
import Mathlib.Tactic.Common

/-!
# The log as a run-length encoding

What was reported since the log was last drained splits into runs of equal messages. The log holds
the last of these runs, as many as it has room for. It sees one message at a time, folds it into
its newest entry or drops its oldest one; that both together come to this rests on the newest entry
being that of the last run, which is never dropped, since there is room for one entry at least.

## Main definitions

* `Log.Run`, `Log.Encodes`, `Log.encode`: run-length encodings of messages.
* `Log.Operation`, `Log.after`: what is done with a log, through any number of loggers.
* `Log.sinceDrain`: the messages since the last drain.

## Main results

* `Log.encode_eq_iff`: messages have one run-length encoding.
* `Log.encode_concat_of_ne`, `Log.encode_concat_of_eq`: what the next message adds to it.
* `Log.keeps_last_runs`: what the log holds, hands out and passes on.
-/

namespace AppleOne.Log

/-! ## Run-length encodings -/

/-- A message that was reported a number of times in a row. -/
structure Run where
  note : Note
  length : Nat
  deriving DecidableEq, Repr

namespace Run

/-- The messages of a run. -/
def notes (run : Run) : List Note :=
  List.replicate run.length run.note

/-- The run with one more message. -/
def longer (run : Run) : Run :=
  { run with length := run.length + 1 }

/-- The entry of a run, whose count goes up to the largest one and no further. -/
def entry (run : Run) : Entry :=
  ⟨run.note, min run.length Entry.maxCount⟩

end Run

/-- Runs that make up some messages, none of them empty, and no two neighbours of the same
message. -/
structure Encodes (runs : List Run) (notes : List Note) : Prop where
  flatMap_notes : runs.flatMap Run.notes = notes
  length_pos : ∀ run ∈ runs, 0 < run.length
  isChain : runs.IsChain (·.note ≠ ·.note)

/-- The run-length encoding of messages. -/
def encode : List Note → List Run
  | [] => []
  | note :: rest =>
    match encode rest with
    | [] => [⟨note, 1⟩]
    | run :: runs => if run.note = note then run.longer :: runs else ⟨note, 1⟩ :: run :: runs

variable {runs : List Run} {notes : List Note} {note : Note} {run : Run}

theorem encodes_encode (notes : List Note) : Encodes (encode notes) notes := by
  induction notes with
  | nil => exact ⟨rfl, nofun, .nil⟩
  | cons note rest ih =>
    obtain ⟨hnotes, hpos, hchain⟩ := ih
    unfold encode
    cases hruns : encode rest with
    | nil =>
      rw [hruns] at hnotes
      exact ⟨congrArg (List.cons note) hnotes, by simp, .singleton _⟩
    | cons run runs =>
      rw [hruns] at hnotes hpos hchain
      simp only
      split
      · next hsame =>
        -- the first run takes the message in, so no run gets a new neighbour
        subst hsame
        refine ⟨congrArg (List.cons run.note) hnotes, ?_, ?_⟩
        · exact List.forall_mem_cons.mpr ⟨Nat.succ_pos _, fun other hother =>
            hpos other (List.mem_cons_of_mem _ hother)⟩
        · exact List.isChain_cons.mpr (List.isChain_cons.mp hchain)
      · next hother =>
        refine ⟨congrArg (List.cons note) hnotes, ?_, ?_⟩
        · exact List.forall_mem_cons.mpr ⟨Nat.one_pos, hpos⟩
        · exact List.isChain_cons_cons.mpr ⟨Ne.symm hother, hchain⟩

/-- Messages that begin with a run are encoded by this run and the encoding of the others. -/
theorem encode_run_append (hpos : 0 < run.length)
    (hnext : ∀ next ∈ (encode notes).head?, run.note ≠ next.note) :
    encode (run.notes ++ notes) = run :: encode notes := by
  obtain ⟨note, length⟩ := run
  obtain ⟨length, rfl⟩ := Nat.exists_eq_add_one.mpr hpos
  clear hpos
  induction length with
  | zero =>
    have hone : Run.notes ⟨note, 0 + 1⟩ ++ notes = note :: notes := rfl
    rw [hone, encode]
    cases hrest : encode notes with
    | nil => rfl
    | cons next runs =>
      rw [hrest] at hnext
      exact if_neg (Ne.symm (hnext next rfl))
  | succ length ih =>
    have hmore : Run.notes ⟨note, length + 1 + 1⟩ ++ notes =
        note :: (Run.notes ⟨note, length + 1⟩ ++ notes) := rfl
    rw [hmore, encode, ih hnext]
    exact if_pos rfl

/-- Messages have one run-length encoding. -/
theorem encode_eq_iff : encode notes = runs ↔ Encodes runs notes := by
  constructor
  · rintro rfl
    exact encodes_encode notes
  · rintro ⟨rfl, hpos, hchain⟩
    induction runs with
    | nil => rfl
    | cons run runs ih =>
      obtain ⟨hfirst, hrest⟩ := List.forall_mem_cons.mp hpos
      obtain ⟨hnext, hchain⟩ := List.isChain_cons.mp hchain
      have hruns := ih hrest hchain
      rw [List.flatMap_cons, encode_run_append hfirst (hruns.symm ▸ hnext), hruns]

/-! ## The next message -/

/-- The last run is of the last message. -/
theorem getLast?_encode (notes : List Note) :
    (encode notes).getLast?.map Run.note = notes.getLast? := by
  obtain ⟨hnotes, hpos, -⟩ := encodes_encode notes
  rcases List.eq_nil_or_concat' (encode notes) with hruns | ⟨runs, run, hruns⟩
  · rw [hruns] at hnotes ⊢
    rw [← hnotes]
    rfl
  · rw [hruns] at hnotes hpos ⊢
    obtain ⟨length, hlength⟩ := Nat.exists_eq_add_one.mpr (hpos run (by simp))
    have hrun : run.notes = List.replicate length run.note ++ [run.note] := by
      rw [Run.notes, hlength, List.replicate_succ']
    rw [← hnotes, List.flatMap_append, List.flatMap_singleton, hrun, ← List.append_assoc,
      List.getLast?_concat, List.getLast?_concat, Option.map_some]

/-- A message other than the last one is a run of its own. -/
theorem encode_concat_of_ne (hother : notes.getLast? ≠ some note) :
    encode (notes ++ [note]) = encode notes ++ [⟨note, 1⟩] := by
  obtain ⟨hnotes, hpos, hchain⟩ := encodes_encode notes
  rw [encode_eq_iff]
  refine ⟨?_, ?_, ?_⟩
  · rw [List.flatMap_append, hnotes]
    rfl
  · exact List.forall_mem_append.mpr ⟨hpos, List.forall_mem_singleton.mpr Nat.one_pos⟩
  · refine List.isChain_append.mpr ⟨hchain, .singleton _, ?_⟩
    rintro last hlast _ ⟨⟩ hsame
    have hmap := getLast?_encode notes
    rw [Option.mem_def.mp hlast] at hmap
    exact hother (hmap.symm.trans (congrArg some hsame))

/-- The last message once more makes the last run longer. -/
theorem encode_concat_of_eq (hruns : encode notes = runs ++ [run]) :
    encode (notes ++ [run.note]) = runs ++ [run.longer] := by
  obtain ⟨hnotes, hpos, hchain⟩ := encode_eq_iff.mp hruns
  obtain ⟨hearlier, -, hlast⟩ := List.isChain_append.mp hchain
  rw [encode_eq_iff]
  refine ⟨?_, ?_, ?_⟩
  · have hlonger : run.longer.notes = run.notes ++ [run.note] := List.replicate_succ'
    rw [List.flatMap_append, List.flatMap_singleton] at hnotes ⊢
    rw [hlonger, ← List.append_assoc, hnotes]
  · obtain ⟨hearlier, -⟩ := List.forall_mem_append.mp hpos
    exact List.forall_mem_append.mpr ⟨hearlier, List.forall_mem_singleton.mpr (Nat.succ_pos _)⟩
  · refine List.isChain_append.mpr ⟨hearlier, .singleton _, ?_⟩
    rintro other hother _ ⟨⟩
    exact hlast other hother run rfl

/-- A message begins a run of its own. -/
def BeginsRun (notes : List Note) (note : Note) : Prop :=
  encode (notes ++ [note]) = encode notes ++ [⟨note, 1⟩]

/-- It does so if it differs from the one before. -/
theorem beginsRun_iff : BeginsRun notes note ↔ notes.getLast? ≠ some note := by
  refine ⟨fun hbegins hsame => ?_, encode_concat_of_ne⟩
  obtain ⟨run, hrun, rfl⟩ := Option.map_eq_some_iff.mp ((getLast?_encode notes).trans hsame)
  obtain ⟨runs, hruns⟩ := List.getLast?_eq_some_iff.mp hrun
  have hlonger := congrArg List.length (encode_concat_of_eq hruns)
  rw [hbegins, hruns] at hlonger
  simp at hlonger

/-! ## What the log holds -/

/-- The log holds the last runs of some messages. -/
def Holds (log : Log) (notes : List Note) : Prop :=
  log.entries.toList = ((encode notes).rtake log.capacity).map Run.entry

variable {log : Log}

theorem holds_nil (h : log.entries = #[]) : Holds log [] := by
  rw [Holds, h, encode, List.rtake_nil]
  rfl

theorem capacity_add (log : Log) (note : Note) : (log.add note).capacity = log.capacity := by
  unfold add
  split
  · split <;> rfl
  · rfl

/-- Since there is room for one, the newest entry is that of the last run. -/
theorem Holds.back? (h : Holds log notes) :
    log.entries.back? = (encode notes).getLast?.map Run.entry := by
  obtain ⟨room, hroom⟩ := Nat.exists_eq_add_one.mpr log.capacity_pos
  rw [← Array.getLast?_toList, h, hroom]
  rcases List.eq_nil_or_concat' (encode notes) with hruns | ⟨runs, run, hruns⟩
  · rw [hruns, List.rtake_nil]
    rfl
  · rw [hruns, List.rtake_concat_succ, List.map_append, List.map_singleton, List.getLast?_concat,
      List.getLast?_concat, Option.map_some]

/-- Its message is the last one. -/
theorem Holds.map_back? (h : Holds log notes) :
    log.entries.back?.map Entry.note = notes.getLast? := by
  rw [h.back?, Option.map_map]
  exact getLast?_encode notes

/-- The log can tell which messages begin a run. -/
theorem Holds.startsRun_iff (h : Holds log notes) (note : Note) :
    log.startsRun note = true ↔ BeginsRun notes note := by
  rw [beginsRun_iff, ← h.map_back?, startsRun]
  cases log.entries.back? with
  | none => simp
  | some newest => simp

/-- Dropping the oldest entry of a full log leaves the last runs but for one. -/
theorem Holds.kept (h : Holds log notes) {room : Nat} (hroom : log.capacity = room + 1) :
    (if log.entries.size = log.capacity then log.entries.eraseIdxIfInBounds 0
      else log.entries).toList = ((encode notes).rtake room).map Run.entry := by
  have hsize := congrArg List.length h
  rw [List.length_map, Array.length_toList, hroom] at hsize
  unfold Holds at h
  rw [hroom] at h
  unfold List.rtake at h hsize ⊢
  rw [List.length_drop] at hsize
  split
  · next hfull =>
    have htail : (log.entries.eraseIdxIfInBounds 0).toList = log.entries.toList.tail := by
      rw [Array.toList_eraseIdxIfInBounds, List.eraseIdx_zero]
    rw [htail, h, ← List.map_tail, List.tail_drop]
    congr 2
    omega
  · next hfull =>
    rw [h]
    congr 2
    omega

theorem Holds.add (h : Holds log notes) (note : Note) :
    Holds (log.add note) (notes ++ [note]) := by
  obtain ⟨room, hroom⟩ := Nat.exists_eq_add_one.mpr log.capacity_pos
  have happend (hother : notes.getLast? ≠ some note) :
      Holds (log.append note) (notes ++ [note]) := by
    have hcapacity : (log.append note).capacity = room + 1 := hroom
    have hentries : (log.append note).entries.toList = _ ++ [Entry.first note] :=
      Array.toList_push
    rw [Holds, hentries, h.kept hroom, hcapacity, encode_concat_of_ne hother,
      List.rtake_concat_succ, List.map_append]
    rfl
  have hback := h.back?
  have hnewest := h.map_back?
  unfold Log.add
  split
  · next newest hsome =>
    rw [hsome] at hback hnewest
    split
    · next hsame =>
      obtain ⟨run, hrun, rfl⟩ := Option.map_eq_some_iff.mp hback.symm
      obtain ⟨runs, hruns⟩ := List.getLast?_eq_some_iff.mp hrun
      obtain rfl : run.note = note := hsame
      -- the last run gets longer, and so does its entry unless the count is at its end
      have hagain : run.entry.again = run.longer.entry := by
        simp only [Run.entry, Entry.again, Run.longer, Entry.mk.injEq, true_and]
        omega
      unfold Holds at h ⊢
      rw [hruns, hroom, List.rtake_concat_succ, List.map_append] at h
      show (log.entries.pop.push run.entry.again).toList = _
      rw [encode_concat_of_eq hruns, hroom, List.rtake_concat_succ, List.map_append,
        Array.toList_push, Array.toList_pop, h, List.map_singleton, List.dropLast_concat, hagain]
      rfl
    · next hother =>
      refine happend fun hlast => hother ?_
      rw [hlast] at hnewest
      exact Option.some.inj hnewest
  · next hnone =>
    refine happend fun hlast => ?_
    rw [hnone, hlast] at hnewest
    cases hnewest

/-! ## Sessions -/

/-- What can be done with a log, and with the loggers that feed it. -/
inductive Operation where
  | report (logger : Logger) (level : Level) (text : String)
  | fault (logger : Logger) (kind : Fault) (detail : String)
  /-- Takes a message in without any logger. -/
  | record (note : Note)
  | drain
  deriving DecidableEq, Repr

/-- What comes of an operation outside the log. -/
structure Answer where
  /-- What is passed on. -/
  forwarded : Option Note := none
  /-- What is handed out. -/
  drained : List Entry := []
  deriving DecidableEq, Repr

namespace Operation

/-- The message that a logger makes of an operation. -/
def emitted? : Operation → Option Note
  | report logger level text => some (logger.note level text)
  | fault logger kind detail => some (logger.faultNote kind detail)
  | record _ | drain => none

/-- The message that an operation puts into the log. -/
def note? : Operation → Option Note
  | record note => some note
  | operation => operation.emitted?

end Operation

/-- Does it. -/
def perform (log : Log) (operation : Operation) : Answer × Log :=
  match operation with
  | .report logger level text =>
    let (forwarded, log) := log.emit (logger.note level text)
    ({ forwarded }, log)
  | .fault logger kind detail =>
    let (forwarded, log) := log.emit (logger.faultNote kind detail)
    ({ forwarded }, log)
  | .record note => ({}, log.add note)
  | .drain =>
    let (drained, log) := log.drain
    ({ drained }, log)

/-- The log after operations on an empty one. -/
def after (capacity : Nat) (operations : List Operation) : Log :=
  operations.foldl (fun log operation => (log.perform operation).2) (empty capacity)

/-- The messages since the last drain, or since the beginning. -/
def sinceDrain (operations : List Operation) : List Note :=
  (operations.rtakeWhile (· ≠ .drain)).filterMap Operation.note?

variable {operations : List Operation}

theorem sinceDrain_concat_drain : sinceDrain (operations ++ [.drain]) = [] := by
  rw [sinceDrain, List.rtakeWhile_concat_neg _ _ _ (by simp)]
  rfl

theorem sinceDrain_concat {operation : Operation} (h : operation.note? = some note) :
    sinceDrain (operations ++ [operation]) = sinceDrain operations ++ [note] := by
  have hdrain : operation ≠ .drain := by
    rintro rfl
    cases h
  rw [sinceDrain, List.rtakeWhile_concat_pos _ _ _ (by simpa using hdrain), List.filterMap_append]
  simp [sinceDrain, h]

theorem forwarded_perform (log : Log) (operation : Operation) :
    (log.perform operation).1.forwarded = operation.emitted?.filter log.startsRun := by
  cases operation with
  | report logger level text => simp [perform, emit, Operation.emitted?, Option.filter]
  | fault logger kind detail => simp [perform, emit, Operation.emitted?, Option.filter]
  | record | drain => rfl

theorem capacity_after (capacity : Nat) (operations : List Operation) :
    (after capacity operations).capacity = max capacity 1 := by
  induction operations using List.reverseRecOn with
  | nil => rfl
  | append_singleton earlier operation ih =>
    rw [after, List.foldl_concat]
    cases operation with
    | drain => exact ih
    | report | fault | record => exact (capacity_add _ _).trans ih

/-- One operation after another: a drain starts afresh, and all others take in a message. -/
theorem holds_after (capacity : Nat) (operations : List Operation) :
    Holds (after capacity operations) (sinceDrain operations) := by
  induction operations using List.reverseRecOn with
  | nil => exact holds_nil rfl
  | append_singleton earlier operation ih =>
    rw [after, List.foldl_concat]
    cases operation with
    | drain =>
      rw [sinceDrain_concat_drain]
      exact holds_nil rfl
    | report | fault | record =>
      rw [sinceDrain_concat rfl]
      exact ih.add _

/-- What a log with room for some entries is to be after some operations. -/
structure KeepsLastRuns (capacity : Nat) (notes : List Note) (log : Log) : Prop where
  /-- It holds the last runs of the messages, with their lengths as counts, up to the largest. -/
  entries_eq : log.entries.toList = ((encode notes).rtake (max capacity 1)).map fun run =>
    ⟨run.note, min run.length (UInt32.size - 1)⟩
  /-- Neighbours are of different messages. -/
  isChain : log.entries.toList.IsChain (·.note ≠ ·.note)
  size_le : log.entries.size ≤ max capacity 1
  /-- A drain hands all of it out, and leaves the log as if it were new. -/
  drain_eq : log.perform .drain = ({ drained := log.entries.toList }, empty capacity)
  /-- What comes through a logger is passed on exactly if it begins a run. -/
  forwarded_iff : ∀ operation note, (log.perform operation).1.forwarded = some note ↔
    operation.emitted? = some note ∧ BeginsRun notes note
  /-- The log itself can tell. -/
  startsRun_iff : ∀ note, log.startsRun note = true ↔ BeginsRun notes note

/-- Whatever is reported through any loggers, recorded and drained, the log holds the last runs of
the one run-length encoding of what was taken in since the last drain. -/
theorem keeps_last_runs (capacity : Nat) (operations : List Operation) :
    let notes := sinceDrain operations
    (∀ runs, encode notes = runs ↔ Encodes runs notes) ∧
      KeepsLastRuns capacity notes (after capacity operations) := by
  intro notes
  have hholds : Holds (after capacity operations) notes := holds_after capacity operations
  have hcapacity := capacity_after capacity operations
  generalize after capacity operations = log at hholds hcapacity
  have hentries : log.entries.toList = ((encode notes).rtake (max capacity 1)).map Run.entry :=
    hcapacity ▸ hholds
  refine ⟨fun _ => encode_eq_iff, hentries, ?_, ?_, ?_, ?_, hholds.startsRun_iff⟩
  · rw [hentries, List.isChain_map]
    exact (encodes_encode notes).isChain.drop _
  · have hsize := congrArg List.length hentries
    rw [Array.length_toList, List.length_map, List.rtake, List.length_drop] at hsize
    omega
  · obtain ⟨_, entries, _⟩ := log
    subst hcapacity
    rfl
  · intro operation note
    rw [forwarded_perform, Option.filter_eq_some_iff, hholds.startsRun_iff]

end AppleOne.Log
