import AppleOne.Proofs.Cpu.Simulation

/-!
# When the hook is asked

A hook is asked about steps only, and not about all of them: a bypass lets one step go ahead
without it. A bypass is no part of the hook. It can be requested when there is none, it is still
there when the hook is replaced or removed, and it makes no difference whether it was requested
once or several times. It is gone after the next step, after a reset and when the registers are
restored.

What a hook was asked can be told by a hook that keeps a list of the addresses. Such a hook answers
as the one that it stands for, so a session with it is the same session.

A hook that refuses a step leaves no trace but what it has noted itself.

## Main definitions

* `Hook.noting`, `Cpu.noting`: hooks that keep a list of the addresses they were asked about.
* `Request.installed`, `Request.BypassOutstanding`: the hook and the bypass after some requests, as
  the requests have it.
* `Cpu.addressesAsked`: the addresses that hooks are asked about in a session.
* `Cpu.AsksFor`, `Cpu.Consults`: when the hook is asked, and what comes of it.

## Main results

* `Cpu.session_noting`: the list that is kept makes no difference.
* `Cpu.bypass_session_iff`, `Cpu.hook_session`: bypass and hook are what the requests say.
* `Cpu.consults_session`: the hook in a session.
-/

namespace AppleOne.Cpu

variable {M σ : Type}

/-! ## Hooks that keep a list -/

/-- The same hook, which also keeps a list of the addresses it was asked about. -/
def Hook.noting (hook : Hook σ) : Hook (σ × List UInt16) :=
  fun pc memo => ((hook pc memo.1).1, (hook pc memo.1).2, memo.2 ++ [pc])

/-- The same request, with a hook that keeps a list if it comes with a hook. -/
def Request.noting : Request σ → Request (σ × List UInt16)
  | .step => .step
  | .singleStep => .singleStep
  | .runFor budget => .runFor budget
  | .requestIrq => .requestIrq
  | .withdrawIrq => .withdrawIrq
  | .requestNmi => .requestNmi
  | .reset => .reset
  | .bypassOnce => .bypassOnce
  | .setHook hook => .setHook hook.noting
  | .clearHook => .clearHook
  | .restore registers => .restore registers
  | .switchProfiling enabled => .switchProfiling enabled

/-- The same processor, with a list of addresses that its hook goes on with. -/
def noting (cpu : Cpu M σ) (addresses : List UInt16) : Cpu M (σ × List UInt16) where
  registers := cpu.registers
  memory := cpu.memory
  hook := cpu.hook.map Hook.noting
  memo := (cpu.memo, addresses)
  bypass := cpu.bypass
  profiling := cpu.profiling
  counts := cpu.counts

variable [Memory M]

/-- The addresses that hooks are asked about in a session, in their order. -/
def addressesAsked (cpu : Cpu M σ) (requests : List (Request σ)) : List UInt16 :=
  ((cpu.noting []).session (requests.map Request.noting)).2.memo.2

/-! ## What requests say -/

namespace Request

/-- Whether any number of steps may come of a request. -/
def isRun : Request σ → Bool
  | .runFor _ => true
  | _ => false

/-- Whether a step comes of a request. -/
def takesStep : Request σ → Bool
  | .step | .singleStep => true
  | _ => false

/-- Whether a request is for a step that no hook can refuse. -/
def bringsBypass : Request σ → Bool
  | .singleStep => true
  | _ => false

/-- Whether a bypass that is outstanding still is after a request. -/
def keepsBypass : Request σ → Bool
  | .step | .singleStep | .reset | .restore _ => false
  | _ => true

/-- Whether a bypass is requested for later. -/
def isBypass : Request σ → Bool
  | .bypassOnce => true
  | _ => false

/-- The hook after a request. -/
def hookAfter (hook : Option (Hook σ)) : Request σ → Option (Hook σ)
  | .setHook hook => some hook
  | .clearHook => none
  | _ => hook

/-- The hook after some requests: the last one that was set, unless it was removed. -/
def installed (hook : Option (Hook σ)) (requests : List (Request σ)) : Option (Hook σ) :=
  requests.foldl hookAfter hook

/-- A bypass is outstanding after some requests: one of them was for a bypass and the later ones
have kept it, or there was one before and all have kept it. -/
def BypassOutstanding (bypass : Bool) (requests : List (Request σ)) : Prop :=
  (∃ earlier later, requests = earlier ++ .bypassOnce :: later ∧
    ∀ request ∈ later, request.keepsBypass = true) ∨
  bypass = true ∧ ∀ request ∈ requests, request.keepsBypass = true

theorem bypassOutstanding_nil {bypass : Bool} :
    BypassOutstanding bypass ([] : List (Request σ)) ↔ bypass = true := by
  simp [BypassOutstanding]

theorem isBypass_iff {request : Request σ} : request.isBypass = true ↔ request = .bypassOnce := by
  cases request <;> simp [isBypass]

/-- The first request says with which bypass the others begin. -/
theorem bypassOutstanding_cons {bypass : Bool} {request : Request σ}
    {rest : List (Request σ)} :
    BypassOutstanding bypass (request :: rest) ↔
      BypassOutstanding (request.isBypass || bypass && request.keepsBypass) rest := by
  constructor
  · rintro (⟨earlier, later, hrequests, hlater⟩ | ⟨hbypass, hkeeps⟩)
    · cases earlier with
      | nil =>
        obtain ⟨rfl, rfl⟩ := List.cons.inj hrequests
        exact .inr ⟨rfl, hlater⟩
      | cons _ earlier => exact .inl ⟨earlier, later, (List.cons.inj hrequests).2, hlater⟩
    · obtain ⟨hfirst, hrest⟩ := List.forall_mem_cons.mp hkeeps
      exact .inr ⟨by rw [hbypass, hfirst, Bool.and_true, Bool.or_true], hrest⟩
  · rintro (⟨earlier, later, rfl, hlater⟩ | ⟨hbypass, hrest⟩)
    · exact .inl ⟨request :: earlier, later, rfl, hlater⟩
    · rcases Bool.or_eq_true_iff.mp hbypass with hrequest | hkept
      · obtain rfl := isBypass_iff.mp hrequest
        exact .inl ⟨[], rest, rfl, hrest⟩
      · obtain ⟨hbypass, hkeeps⟩ := Bool.and_eq_true_iff.mp hkept
        exact .inr ⟨hbypass, List.forall_mem_cons.mpr ⟨hkeeps, hrest⟩⟩

end Request

/-- A request makes a step ask the hook after some others: a step comes of it, there is a hook, and
no bypass is outstanding. -/
structure AsksFor (cpu : Cpu M σ) (earlier : List (Request σ)) (request : Request σ) : Prop where
  takesStep : request.takesStep = true
  hooked : (Request.installed cpu.hook earlier).isSome = true
  /-- The step does not bring a bypass of its own. -/
  unbypassed : request.bringsBypass = false
  not_outstanding : ¬ Request.BypassOutstanding cpu.bypass earlier

/-- What a request comes to after some others, as far as the hook is concerned. -/
structure Consults (cpu : Cpu M σ) (earlier : List (Request σ)) (request : Request σ)
    (before after : Cpu M σ) (answer : Answer) : Prop where
  /-- Hooks that keep a list do the same and answer the same. -/
  noting :
    let requests := earlier ++ [request]
    (cpu.noting []).session (requests.map Request.noting) =
      ((cpu.session requests).1, after.noting (cpu.addressesAsked requests))
  /-- The hook is asked once, about the address of the step. -/
  asked : cpu.AsksFor earlier request →
    cpu.addressesAsked (earlier ++ [request]) =
      cpu.addressesAsked earlier ++ [before.registers.pc]
  /-- Otherwise it is not asked. -/
  not_asked : ¬ cpu.AsksFor earlier request →
    cpu.addressesAsked (earlier ++ [request]) = cpu.addressesAsked earlier
  /-- Refused is what the hook was asked about and has denied. -/
  refused_iff : (∃ pc, answer = .outcome (.refused pc)) ↔
    cpu.AsksFor earlier request ∧ ∃ hook, Request.installed cpu.hook earlier = some hook ∧
      (hook before.registers.pc before.memo).1 = false
  /-- What was refused leaves everything as it was but for what the hook has noted. -/
  unchanged : ∀ pc, answer = .outcome (.refused pc) →
    pc = before.registers.pc ∧ after = { before with memo := after.memo }
  /-- So do any number of steps if all of them are refused. -/
  unchanged_run : ∀ count,
    let run := before.session (List.replicate count .step)
    (∀ answered ∈ run.1, ∃ pc, answered.1 = .outcome (.refused pc)) →
      run.2 = { before with memo := run.2.memo }

variable {cpu : Cpu M σ} {earlier requests : List (Request σ)} {request : Request σ}
  {addresses : List UInt16}

/-! ## Sessions -/

theorem session_append (cpu : Cpu M σ) (earlier later : List (Request σ)) :
    cpu.session (earlier ++ later) =
      ((cpu.session earlier).1 ++ ((cpu.session earlier).2.session later).1,
        ((cpu.session earlier).2.session later).2) := by
  induction earlier generalizing cpu with
  | nil => rfl
  | cons request rest ih => simp only [List.cons_append, session, ih]

/-- The last request is done where the others have led. -/
theorem session_concat (cpu : Cpu M σ) (earlier : List (Request σ)) (request : Request σ) :
    (cpu.session (earlier ++ [request])).2 = ((cpu.session earlier).2.perform request).2 := by
  rw [session_append]
  rfl

/-! ## What the requests say is so -/

@[simp] theorem perform_hook (hrun : request.isRun = false) :
    (cpu.perform request).2.hook = request.hookAfter cpu.hook := by
  cases request with
  | runFor budget => cases hrun
  | step =>
    obtain ⟨memo, hstep | hstep⟩ := cpu.step_cases
    · simp only [perform, hstep, advance_hook]
      rfl
    · simp only [perform, hstep]
      rfl
  | singleStep =>
    simp only [perform, singleStep_eq, advance_hook]
    rfl
  | switchProfiling enabled =>
    obtain ⟨counts, hswitched⟩ := cpu.exists_switchProfiling enabled
    exact (congrArg Cpu.hook hswitched :)
  | _ => rfl

/-- A step leaves no bypass behind, whether it has used one up or not. -/
theorem step_bypass (cpu : Cpu M σ) : cpu.step.2.bypass = false := by
  cases hbypass : cpu.bypass with
  | true => rw [step_of_bypass hbypass, advance_bypass]
  | false =>
    obtain ⟨memo, hstep | hstep⟩ := cpu.step_cases
    · rw [hstep, advance_bypass]
    · rw [hstep]
      exact hbypass

theorem perform_bypass (hrun : request.isRun = false) :
    (cpu.perform request).2.bypass =
      (request.isBypass || cpu.bypass && request.keepsBypass) := by
  cases request with
  | runFor budget => cases hrun
  | step => exact (step_bypass cpu).trans (Bool.and_false _).symm
  | singleStep => exact (step_bypass cpu.bypassOnce).trans (Bool.and_false _).symm
  | reset => exact (Bool.and_false _).symm
  | restore registers => exact (Bool.and_false _).symm
  | bypassOnce => rfl
  | switchProfiling enabled =>
    obtain ⟨counts, hswitched⟩ := cpu.exists_switchProfiling enabled
    exact (congrArg Cpu.bypass hswitched :).trans (Bool.and_true _).symm
  | _ => exact (Bool.and_true _).symm

theorem hook_session (hruns : ∀ request ∈ requests, request.isRun = false) :
    (cpu.session requests).2.hook = Request.installed cpu.hook requests := by
  induction requests generalizing cpu with
  | nil => rfl
  | cons request rest ih =>
    obtain ⟨hrun, hrest⟩ := List.forall_mem_cons.mp hruns
    have hlater : ((cpu.perform request).2.session rest).2.hook =
        Request.installed (cpu.perform request).2.hook rest := ih hrest
    rw [perform_hook hrun] at hlater
    exact hlater

theorem bypass_session_iff (hruns : ∀ request ∈ requests, request.isRun = false) :
    (cpu.session requests).2.bypass = true ↔
      Request.BypassOutstanding cpu.bypass requests := by
  induction requests generalizing cpu with
  | nil => exact Request.bypassOutstanding_nil.symm
  | cons request rest ih =>
    obtain ⟨hrun, hrest⟩ := List.forall_mem_cons.mp hruns
    have hlater : ((cpu.perform request).2.session rest).2.bypass = true ↔
        Request.BypassOutstanding (cpu.perform request).2.bypass rest := ih hrest
    rw [perform_bypass hrun] at hlater
    exact hlater.trans Request.bypassOutstanding_cons.symm

/-! ## The list makes no difference -/

/-- The addresses that a request asks the present hook about: that of the next step, or none. -/
def asks (cpu : Cpu M σ) (request : Request σ) : List UInt16 :=
  if request.takesStep && cpu.hook.isSome && !(request.bringsBypass || cpu.bypass)
  then [cpu.registers.pc] else []

omit [Memory M] in
theorem asks_of_not_takesStep (h : request.takesStep = false) : cpu.asks request = [] := by
  simp [asks, h]

theorem countsAfter_noting (cpu : Cpu M σ) (addresses : List UInt16) :
    (cpu.noting addresses).countsAfter = cpu.countsAfter := by
  obtain ⟨registers, memory, hook, memo, bypass, profiling, counts⟩ := cpu
  cases profiling <;> rfl

theorem advance_noting (cpu : Cpu M σ) (addresses : List UInt16) :
    (cpu.noting addresses).advance = (cpu.advance.1, cpu.advance.2.noting addresses) := by
  rw [advance_eq, advance_eq, countsAfter_noting]
  rfl

theorem step_noting (cpu : Cpu M σ) (addresses : List UInt16) :
    (cpu.noting addresses).step =
      (cpu.step.1, cpu.step.2.noting (addresses ++ cpu.asks .step)) := by
  cases hbypass : cpu.bypass with
  | true =>
    have hasks : cpu.asks .step = [] := by simp [asks, hbypass]
    have hnoting : (cpu.noting addresses).step =
        { cpu.noting addresses with bypass := false }.advance := step_of_bypass hbypass
    rw [hasks, List.append_nil, hnoting, step_of_bypass hbypass]
    exact advance_noting { cpu with bypass := false } addresses
  | false =>
    cases hhook : cpu.hook with
    | none =>
      have hasks : cpu.asks .step = [] := by simp [asks, hhook]
      have hnone : (cpu.noting addresses).hook = none := congrArg (Option.map Hook.noting) hhook
      rw [hasks, List.append_nil, step_of_hook_eq_none hhook, step_of_hook_eq_none hnone]
      exact advance_noting { cpu with bypass := false } addresses
    | some hook =>
      have hasks : cpu.asks .step = [cpu.registers.pc] := by
        simp [asks, hbypass, hhook, Request.takesStep, Request.bringsBypass]
      have hsome : (cpu.noting addresses).hook = some hook.noting :=
        congrArg (Option.map Hook.noting) hhook
      have hnoting : (cpu.noting addresses).step = _ := step_of_hook hbypass hsome
      rw [hasks, hnoting, step_of_hook hbypass hhook]
      -- both hooks answer the same, and one of them has noted the address
      change (if (hook cpu.registers.pc cpu.memo).1 then _ else _) = _
      split
      · exact advance_noting { cpu with memo := (hook cpu.registers.pc cpu.memo).2 } _
      · rfl

theorem perform_noting (hrun : request.isRun = false) (addresses : List UInt16) :
    (cpu.noting addresses).perform request.noting =
      ((cpu.perform request).1, (cpu.perform request).2.noting (addresses ++ cpu.asks request)) := by
  cases request with
  | runFor budget => cases hrun
  | step =>
    simp only [Request.noting, perform, step_noting]
  | singleStep =>
    have hasks : cpu.asks .singleStep = [] := by simp [asks, Request.bringsBypass]
    have hbypassed : cpu.bypassOnce.asks .step = [] := by simp [asks, bypassOnce]
    have hstep := step_noting cpu.bypassOnce addresses
    rw [hbypassed] at hstep
    rw [hasks]
    exact congrArg (fun stepped => (Answer.outcome stepped.1, stepped.2)) hstep
  | switchProfiling enabled =>
    rw [asks_of_not_takesStep rfl, List.append_nil]
    obtain ⟨registers, memory, hook, memo, bypass, profiling, counts⟩ := cpu
    cases enabled <;> cases profiling <;> rfl
  | _ =>
    rw [asks_of_not_takesStep rfl, List.append_nil]
    rfl

/-- The list goes on by the same addresses, whatever it began with. -/
theorem exists_session_noting (cpu : Cpu M σ)
    (hruns : ∀ request ∈ requests, request.isRun = false) :
    ∃ asked, ∀ addresses, (cpu.noting addresses).session (requests.map Request.noting) =
      ((cpu.session requests).1, (cpu.session requests).2.noting (addresses ++ asked)) := by
  induction requests generalizing cpu with
  | nil => exact ⟨[], fun addresses => by rw [List.append_nil]; rfl⟩
  | cons request rest ih =>
    obtain ⟨hrun, hrest⟩ := List.forall_mem_cons.mp hruns
    obtain ⟨asked, hasked⟩ := ih (cpu.perform request).2 hrest
    refine ⟨cpu.asks request ++ asked, fun addresses => ?_⟩
    simp only [List.map_cons, session, perform_noting hrun, hasked, List.append_assoc]
    rfl

theorem session_noting (hruns : ∀ request ∈ requests, request.isRun = false) :
    (cpu.noting []).session (requests.map Request.noting) =
      ((cpu.session requests).1,
        (cpu.session requests).2.noting (cpu.addressesAsked requests)) := by
  obtain ⟨asked, hasked⟩ := exists_session_noting cpu hruns
  have hlist : cpu.addressesAsked requests = asked := by
    rw [addressesAsked, hasked]
    rfl
  rw [hlist]
  exact hasked []

/-- The last request adds what it asks for itself. -/
theorem addressesAsked_concat (cpu : Cpu M σ)
    (hruns : ∀ request ∈ earlier, request.isRun = false) (hrun : request.isRun = false) :
    cpu.addressesAsked (earlier ++ [request]) =
      cpu.addressesAsked earlier ++ (cpu.session earlier).2.asks request := by
  rw [addressesAsked, List.map_append, List.map_singleton, session_concat,
    session_noting hruns, perform_noting hrun]
  rfl

/-! ## What comes of a refusal -/

/-- A step that is refused leaves everything as it was but for what the hook has noted. -/
theorem step_of_refused {pc : UInt16} (hrefused : cpu.step.1 = .refused pc) :
    pc = cpu.registers.pc ∧ cpu.step.2 = { cpu with memo := cpu.step.2.memo } := by
  obtain ⟨memo, hstep | hstep⟩ := cpu.step_cases
  · rw [hstep, advance_eq] at hrefused
    cases hrefused
  · rw [hstep] at hrefused ⊢
    exact ⟨(Outcome.refused.inj hrefused).symm, rfl⟩

/-- A step is refused exactly if the hook is asked about it and denies it. -/
theorem step_refused_iff :
    (∃ pc, cpu.step.1 = .refused pc) ↔ cpu.bypass = false ∧
      ∃ hook, cpu.hook = some hook ∧ (hook cpu.registers.pc cpu.memo).1 = false := by
  have hgoes (cpu : Cpu M σ) : ¬ ∃ pc, cpu.advance.1 = .refused pc := by
    rintro ⟨pc, hrefused⟩
    rw [advance_eq] at hrefused
    cases hrefused
  cases hbypass : cpu.bypass with
  | true => simpa [step_of_bypass hbypass] using hgoes _
  | false =>
    cases hhook : cpu.hook with
    | none => simpa [step_of_hook_eq_none hhook] using hgoes _
    | some hook =>
      rw [step_of_hook hbypass hhook]
      split
      · next hallowed => simpa [hallowed] using hgoes _
      · next hdenied => simpa using hdenied

theorem session_of_refused (count : Nat)
    (hrefused : ∀ answered ∈ (cpu.session (List.replicate count .step)).1,
      ∃ pc, answered.1 = .outcome (.refused pc)) :
    (cpu.session (List.replicate count .step)).2 =
      { cpu with memo := (cpu.session (List.replicate count .step)).2.memo } := by
  induction count generalizing cpu with
  | zero => rfl
  | succ count ih =>
    simp only [List.replicate_succ, session] at hrefused ⊢
    obtain ⟨⟨pc, hfirst⟩, hrest⟩ := List.forall_mem_cons.mp hrefused
    obtain ⟨-, hstep⟩ := step_of_refused (Answer.outcome.inj hfirst)
    have hlast := ih hrest
    have hsame : (cpu.perform .step).2 = { cpu with memo := cpu.step.2.memo } := hstep
    rw [hlast, hsame]

/-! ## The hook in a session -/

/-- Whether the hook is asked can be told from the requests alone. -/
theorem asksFor_iff (hruns : ∀ request ∈ earlier, request.isRun = false) :
    cpu.AsksFor earlier request ↔ request.takesStep = true ∧
      (cpu.session earlier).2.hook.isSome = true ∧ request.bringsBypass = false ∧
      (cpu.session earlier).2.bypass = false := by
  rw [hook_session hruns, ← Bool.not_eq_true, ← Bool.not_eq_true, bypass_session_iff hruns,
    Bool.not_eq_true]
  exact ⟨fun ⟨hstep, hhook, hbrings, hbypass⟩ => ⟨hstep, hhook, hbrings, hbypass⟩,
    fun ⟨hstep, hhook, hbrings, hbypass⟩ => ⟨hstep, hhook, hbrings, hbypass⟩⟩

theorem asks_of_asksFor (hruns : ∀ request ∈ earlier, request.isRun = false)
    (hasks : cpu.AsksFor earlier request) :
    (cpu.session earlier).2.asks request = [(cpu.session earlier).2.registers.pc] := by
  obtain ⟨hstep, hhook, hbrings, hbypass⟩ := (asksFor_iff hruns).mp hasks
  simp [asks, hstep, hhook, hbrings, hbypass]

theorem asks_of_not_asksFor (hruns : ∀ request ∈ earlier, request.isRun = false)
    (hasks : ¬ cpu.AsksFor earlier request) : (cpu.session earlier).2.asks request = [] := by
  rw [asksFor_iff hruns] at hasks
  refine if_neg fun hall => hasks ?_
  simpa [and_assoc] using hall

/-- A request is answered with a refusal exactly if the hook is asked and denies the step. -/
theorem perform_refused_iff (hruns : ∀ request ∈ earlier, request.isRun = false)
    (hrun : request.isRun = false) :
    let before := (cpu.session earlier).2
    (∃ pc, (before.perform request).1 = .outcome (.refused pc)) ↔
      cpu.AsksFor earlier request ∧ ∃ hook, Request.installed cpu.hook earlier = some hook ∧
        (hook before.registers.pc before.memo).1 = false := by
  intro before
  rw [asksFor_iff hruns, ← hook_session hruns]
  cases request with
  | runFor budget => cases hrun
  | step =>
    have hrefused : (∃ pc, before.step.1 = .refused pc) ↔ _ := step_refused_iff
    constructor
    · rintro ⟨pc, houtcome⟩
      obtain ⟨hbypass, hook, hhook, hdenied⟩ := hrefused.mp ⟨pc, Answer.outcome.inj houtcome⟩
      exact ⟨⟨rfl, Option.isSome_of_eq_some hhook, rfl, hbypass⟩, hook, hhook, hdenied⟩
    · rintro ⟨⟨-, -, -, hbypass⟩, hook, hhook, hdenied⟩
      obtain ⟨pc, houtcome⟩ := hrefused.mpr ⟨hbypass, hook, hhook, hdenied⟩
      exact ⟨pc, congrArg Answer.outcome houtcome⟩
  | singleStep =>
    -- the step brings a bypass, so nobody is asked
    have hrefused : (∃ pc, before.bypassOnce.step.1 = .refused pc) ↔ _ := step_refused_iff
    constructor
    · rintro ⟨pc, houtcome⟩
      exact absurd (hrefused.mp ⟨pc, Answer.outcome.inj houtcome⟩).1 Bool.noConfusion
    · rintro ⟨⟨-, -, hbrings, -⟩, -⟩
      cases hbrings
  | _ =>
    constructor
    · rintro ⟨pc, hanswer⟩
      cases hanswer
    · rintro ⟨⟨htakes, -⟩, -⟩
      cases htakes

/-- What is refused was a step. -/
theorem perform_of_refused (hrun : request.isRun = false) {pc : UInt16}
    (hanswer : (cpu.perform request).1 = .outcome (.refused pc)) :
    pc = cpu.registers.pc ∧
      (cpu.perform request).2 = { cpu with memo := (cpu.perform request).2.memo } := by
  cases request with
  | runFor budget => cases hrun
  | step => exact step_of_refused (Answer.outcome.inj hanswer)
  | singleStep =>
    have hasked := step_refused_iff.mp ⟨pc, Answer.outcome.inj hanswer⟩
    exact absurd hasked.1 Bool.noConfusion
  | _ => cases hanswer

/-- After any requests the next one asks the hook if a step comes of it, a hook is installed and no
bypass is outstanding, and does not otherwise. It asks once, about the address of the step. What
the hook denies is refused and nothing else is, and what is refused changes nothing. -/
theorem consults_session (cpu : Cpu M σ) (earlier : List (Request σ)) (request : Request σ)
    (hruns : ∀ request ∈ earlier, request.isRun = false) (hrun : request.isRun = false) :
    let before := (cpu.session earlier).2
    cpu.Consults earlier request before (before.perform request).2 (before.perform request).1 := by
  have hadded := addressesAsked_concat cpu hruns hrun
  refine ⟨?_, ?_, ?_, perform_refused_iff hruns hrun, fun _ => perform_of_refused hrun,
    session_of_refused⟩
  · have hall : ∀ other ∈ earlier ++ [request], other.isRun = false :=
      List.forall_mem_append.mpr ⟨hruns, List.forall_mem_singleton.mpr hrun⟩
    intro requests
    rw [session_noting hall, session_concat]
  · intro hasks
    rw [hadded, asks_of_asksFor hruns hasks]
  · intro hasks
    rw [hadded, asks_of_not_asksFor hruns hasks, List.append_nil]

/-- A bypass that was requested twice has let one step go ahead. The next one is refused by a hook
that denies everything, at the address to which the first one has led. -/
theorem consults_session_denied :
    let cpu : Cpu PlainMemory Nat := powerOn (PlainMemory.zeros 0) 0
    let deny : Hook Nat := fun _ asked => (false, asked + 1)
    let earlier : List (Request Nat) := [.bypassOnce, .setHook deny, .bypassOnce, .step]
    let before := (cpu.session earlier).2
    cpu.Consults earlier .step before (before.perform .step).2 (before.perform .step).1 ∧
      ∃ pc, (before.perform .step).1 = .outcome (.refused pc) := by
  intro cpu deny earlier before
  have hconsults := consults_session cpu earlier .step (by simp [earlier, Request.isRun]) rfl
  have houtstanding : ¬ Request.BypassOutstanding cpu.bypass earlier := by
    simp [earlier, Request.bypassOutstanding_cons, Request.bypassOutstanding_nil,
      Request.isBypass, Request.keepsBypass]
  have hasks : cpu.AsksFor earlier .step := ⟨rfl, rfl, rfl, houtstanding⟩
  exact ⟨hconsults, hconsults.refused_iff.mpr ⟨hasks, deny, rfl, rfl⟩⟩

end AppleOne.Cpu
