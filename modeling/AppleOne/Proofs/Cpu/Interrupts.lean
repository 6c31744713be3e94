import AppleOne.Proofs.Cpu.Encounters
import AppleOne.Proofs.Cpu.Passage
import AppleOne.Proofs.Cpu.Simulation

/-!
# Requests for interrupts and entries of handlers

A request waits in a latch. The latch is set by the request, and cleared when the handler is
entered or, for an interrupt that can be disabled, when the request is withdrawn; no
instruction touches it. So requests are neither lost nor served twice, and the one that cannot
be disabled goes first.

What a step was is seen on the bus: the entry of a handler begins with three writes and goes on
to read the vector, while an instruction begins with the reading of its opcode.

## Main definitions

* `Moment` and `Cpu.moments`: the requests of a session with the processors that met them.
* `Moment.served?`: the interrupt whose handler a step enters, as the bus shows it.
* `Moment.EntersHandler`: all that the entry of a handler does.
* `InOrder`: what it means that interrupts are neither lost, nor repeated, nor out of order.

## Main results

* `enterInterrupt_eq`: the entry of a handler, access by access.
* `Moment.served?_eq`: the bus shows which step is an entry.
* `Moment.pending_after`: what becomes of a latch.
* `inOrder_moments`: interrupts are in order.
-/

namespace AppleOne.Cpu

/-- The interrupt whose handler is entered with some accesses. -/
def Interrupt.ofAccesses : List Access → Option Interrupt
  | [.write _ _, .write _ _, .write _ _, .read address _, .read _ _] =>
    if address = nmiVector then some nmi else if address = irqVector then some irq else none
  | _ => none

namespace Registers

/-- Whether a request waits. -/
def pending (r : Registers) : Interrupt → Bool
  | .irq => r.irqPending
  | .nmi => r.nmiPending

/-- The registers after the entry of a handler. -/
def entered (r : Registers) (interrupt : Interrupt) (handler : UInt16) : Registers :=
  { r.acknowledge interrupt with
    pc := handler
    sp := r.sp - 3
    flags := { r.flags with interruptDisable := true }
    cycles := r.cycles + 7 }

/-- What is seen on the bus during the entry: the place to come back to and the status are
pushed, and the vector is read. -/
def entryAccesses (r : Registers) (interrupt : Interrupt) (low high : UInt8) : List Access :=
  [.write (stackAddress r.sp) (r.pc >>> 8).toUInt8, .write (stackAddress (r.sp - 1)) r.pc.toUInt8,
    .write (stackAddress (r.sp - 2)) r.status, .read interrupt.vector low,
    .read (interrupt.vector + 1) high]

theorem pending_of_due {r : Registers} {interrupt : Interrupt} (h : r.due? = some interrupt) :
    r.pending interrupt = true := by
  unfold due? at h
  split at h
  · cases h
    assumption
  · split at h
    · next hirq =>
      cases h
      exact (Bool.and_eq_true_iff.mp hirq).1
    · cases h

/-- The entry of a handler clears the latch of its request, and no other. -/
theorem pending_entered (r : Registers) (interrupt other : Interrupt) (handler : UInt16) :
    (r.entered interrupt handler).pending other =
      (r.pending other && !(interrupt == other)) := by
  cases interrupt <;> cases other <;> simp [entered, acknowledge, pending]

/-- A status byte has bit 4 clear and bit 5 set. -/
theorem status_bits (r : Registers) : r.status &&& 0x10 = 0 ∧ r.status &&& 0x20 = 0x20 := by
  have hall : ∀ n v d i z c : Bool,
      (Flags.mk n v d i z c).toByte &&& 0x10 = 0 ∧
        (Flags.mk n v d i z c).toByte &&& 0x20 = 0x20 := by
    decide
  exact hall _ _ _ _ _ _

end Registers

/-! ## Steps -/

open Transaction

variable {r : Registers} {interrupt : Interrupt}

/-- The entry of a handler, access by access. -/
theorem enterInterrupt_eq (interrupt : Interrupt) (r : Registers) :
    enterInterrupt interrupt.vector (r.acknowledge interrupt) =
      .write (stackAddress r.sp) (r.pc >>> 8).toUInt8
        (.write (stackAddress (r.sp - 1)) r.pc.toUInt8
          (.write (stackAddress (r.sp - 2)) r.status
            (.read interrupt.vector fun low =>
              .read (interrupt.vector + 1) fun high =>
                .done (r.entered interrupt (word low high))))) := by
  have hthird : r.sp - 2 = r.sp - 1 - 1 := by grind
  have hafter : r.sp - 3 = r.sp - 1 - 1 - 1 := by grind
  simp only [Registers.entered, hthird, hafter]
  cases interrupt <;> rfl

variable {M σ : Type} [Memory M]

/-- The step that enters a handler, carried out on a memory. -/
theorem run_step_of_due (h : r.due? = some interrupt) (memory : M) :
    ∃ low high,
      (r.step.run memory).1 = (r.entered interrupt (word low high), none) ∧
        (r.step.encounters memory).map (·.access) = r.entryAccesses interrupt low high := by
  rw [step_of_due h, enterInterrupt_eq]
  exact ⟨_, _, rfl, rfl⟩

/-- What a step does to the latches: it takes out the request that it serves. -/
theorem pending_step (r : Registers) (memory : M) (interrupt : Interrupt) :
    (r.step.run memory).1.1.pending interrupt =
      (r.pending interrupt && !(r.due? == some interrupt)) := by
  cases hdue : r.due? with
  | none =>
    -- no instruction touches a latch
    have hkept : r.step.Returns fun after => after.1.pending interrupt = r.pending interrupt := by
      rw [step_of_not_due hdue]
      refine fun opcode => returns_bind (returns_executeInstruction _ r) ?_
      rintro after ⟨extra, -, hpassed⟩
      cases interrupt with
      | irq => exact hpassed.irqPending
      | nmi => exact hpassed.nmiPending
    simpa using hkept.run memory
  | some served =>
    obtain ⟨low, high, hrun, -⟩ := run_step_of_due hdue memory
    rw [hrun]
    exact r.pending_entered served interrupt _

/-- The accesses of a step that is carried out show which interrupt was due. -/
theorem ofAccesses_encounters (cpu : Cpu M σ) :
    Interrupt.ofAccesses (cpu.encounters.map (·.access)) = cpu.registers.due? := by
  unfold encounters
  cases hdue : cpu.registers.due? with
  | none =>
    rw [step_of_not_due hdue]
    rfl
  | some interrupt =>
    obtain ⟨low, high, -, haccesses⟩ := run_step_of_due hdue cpu.memory
    rw [haccesses]
    cases interrupt <;> rfl

/-! ## Moments -/

/-- A request, and the processor that met it. -/
structure Moment (M σ : Type) where
  before : Cpu M σ
  request : Request σ

/-- Whether something is requested that is not one of many steps and does not replace the
registers. -/
def Request.isSimple : Request σ → Bool
  | .runFor _ | .reset | .restore _ => false
  | _ => true

/-- Whether an interrupt is requested. -/
def Request.raises : Request σ → Interrupt → Bool
  | .requestIrq, .irq | .requestNmi, .nmi => true
  | _, _ => false

/-- Whether a request for an interrupt is withdrawn. -/
def Request.withdraws : Request σ → Interrupt → Bool
  | .withdrawIrq, .irq => true
  | _, _ => false

namespace Moment

/-- The answer to the request. -/
def answer (moment : Moment M σ) : Answer := (moment.before.perform moment.request).1

/-- The processor after the request. -/
def after (moment : Moment M σ) : Cpu M σ := (moment.before.perform moment.request).2

/-- Whether a step was carried out. -/
def executed (moment : Moment M σ) : Bool :=
  match moment.answer with
  | .outcome outcome => !outcome.wasRefused
  | _ => false

/-- The accesses on the bus. -/
def accesses (moment : Moment M σ) : List Access :=
  if moment.executed then moment.before.encounters.map (·.access) else []

/-- The interrupt whose handler was entered. -/
def served? (moment : Moment M σ) : Option Interrupt := Interrupt.ofAccesses moment.accesses

/-- Whether a latch is cleared: its handler is entered, or the request is withdrawn. -/
def clears (moment : Moment M σ) (interrupt : Interrupt) : Bool :=
  moment.served? == some interrupt || moment.request.withdraws interrupt

end Moment

/-- The moments of a session. -/
def moments (cpu : Cpu M σ) : List (Request σ) → List (Moment M σ)
  | [] => []
  | request :: rest =>
    let moment : Moment M σ := ⟨cpu, request⟩
    moment :: moment.after.moments rest

namespace Moment

variable {moment : Moment M σ}

/-- A step that is carried out leads where the processor advances to. -/
theorem registers_after (h : moment.executed = true) :
    moment.after.registers = moment.before.advance.2.registers ∧
      moment.answer = .outcome moment.before.advance.1 := by
  obtain ⟨cpu, request⟩ := moment
  cases request with
  | step =>
    obtain ⟨memo, hstep | hstep⟩ := step_cases cpu
    · simp only [after, answer, perform, hstep, advance_eq, memoryAfter]
      exact ⟨trivial, trivial⟩
    · simp [executed, answer, perform, hstep, Outcome.wasRefused] at h
  | singleStep =>
    simp only [after, answer, perform, singleStep_eq, advance_eq, memoryAfter]
    exact ⟨trivial, trivial⟩
  | _ => cases h

/-- The bus shows which step is an entry. -/
theorem served?_eq (moment : Moment M σ) :
    moment.served? = if moment.executed then moment.before.registers.due? else none := by
  unfold served? accesses
  split
  · exact ofAccesses_encounters moment.before
  · rfl

theorem served?_of_not_executed (h : moment.executed = false) : moment.served? = none := by
  simp [served?_eq, h]

/-- A refused step leaves the registers alone. -/
theorem registers_of_refused (hrequest : moment.request = .step)
    (h : moment.executed = false) : moment.after.registers = moment.before.registers := by
  obtain ⟨cpu, request⟩ := moment
  subst hrequest
  obtain ⟨memo, hstep | hstep⟩ := step_cases cpu
  · simp [executed, answer, perform, hstep] at h
  · simp only [after, perform, hstep]

/-- A step that is carried out requests nothing and withdraws nothing. -/
theorem request_of_executed (h : moment.executed = true) (interrupt : Interrupt) :
    moment.request.raises interrupt = false ∧ moment.request.withdraws interrupt = false := by
  obtain ⟨cpu, request⟩ := moment
  cases request with
  | step | singleStep => exact ⟨rfl, rfl⟩
  | _ => cases h

/-- A latch is set after a request for its interrupt, and stays set until it is cleared. -/
theorem pending_after (hsimple : moment.request.isSimple = true) (interrupt : Interrupt) :
    moment.after.registers.pending interrupt =
      (moment.request.raises interrupt ||
        moment.before.registers.pending interrupt && !moment.clears interrupt) := by
  unfold clears
  rw [served?_eq]
  -- only a step that is carried out can enter a handler
  cases hexecuted : moment.executed with
  | true =>
    obtain ⟨hraises, hwithdraws⟩ := request_of_executed hexecuted interrupt
    obtain ⟨hregisters, -⟩ := registers_after hexecuted
    rw [hregisters, advance_eq, hraises, hwithdraws]
    simpa using pending_step moment.before.registers moment.before.memory interrupt
  | false =>
    obtain ⟨cpu, request⟩ := moment
    cases request with
    | step =>
      rw [registers_of_refused rfl hexecuted]
      simp [Request.raises, Request.withdraws]
    | singleStep =>
      simp [executed, answer, perform, singleStep_eq] at hexecuted
    | runFor budget => cases hsimple
    | reset => cases hsimple
    | restore registers => cases hsimple
    | requestIrq | requestNmi | withdrawIrq =>
      cases interrupt <;>
        simp [after, perform, requestIrq, requestNmi, withdrawIrq, Registers.pending,
          Request.raises, Request.withdraws]
    | switchProfiling enabled =>
      obtain ⟨counts, hswitched⟩ := cpu.exists_switchProfiling enabled
      simp [after, perform, hswitched, Request.raises, Request.withdraws]
    | bypassOnce | setHook hook | clearHook =>
      simp [after, perform, bypassOnce, setHook, clearHook, Request.raises, Request.withdraws]

/-- A step that enters a handler. The place to come back to and the status are pushed, with
bit 4 of the status clear and bit 5 set; interrupts are disabled; execution goes on at the
vector. This takes seven cycles. -/
def EntersHandler (moment : Moment M σ) (interrupt : Interrupt) : Prop :=
  let r := moment.before.registers
  moment.answer = .outcome (.ran 7) ∧
    r.status &&& 0x10 = 0 ∧ r.status &&& 0x20 = 0x20 ∧
    ∃ low high, moment.accesses = r.entryAccesses interrupt low high ∧
      moment.after.registers = r.entered interrupt (word low high)

theorem entersHandler (h : moment.served? = some interrupt) : moment.EntersHandler interrupt := by
  rw [served?_eq] at h
  split at h
  · next hexecuted =>
    obtain ⟨hregisters, hanswer⟩ := registers_after hexecuted
    obtain ⟨hclear, hset⟩ := moment.before.registers.status_bits
    obtain ⟨low, high, hrun, haccesses⟩ := run_step_of_due h moment.before.memory
    refine ⟨?_, hclear, hset, low, high, ?_, ?_⟩
    · have hseven (cycles : UInt64) : cycles + 7 - cycles = 7 := by grind
      rw [hanswer, advance_eq, hrun]
      exact congrArg (fun taken : UInt64 => Answer.outcome (.ran taken.toUInt8)) (hseven _)
    · simp only [accesses, hexecuted, if_true]
      exact haccesses
    · rw [hregisters, advance_eq, hrun]
  · cases h

end Moment

/-! ## Sessions -/

variable {cpu : Cpu M σ} {requests : List (Request σ)} {moment next : Moment M σ}
  {earlier between later : List (Moment M σ)}

/-- A session goes on where a moment left the processor. -/
theorem moments_split (h : cpu.moments requests = earlier ++ moment :: later) :
    moment.request ∈ requests ∧
      ∃ rest, later = moment.after.moments rest ∧ ∀ request ∈ rest, request ∈ requests := by
  induction earlier generalizing cpu requests with
  | nil =>
    cases requests with
    | nil => cases h
    | cons request rest =>
      obtain ⟨rfl, rfl⟩ := List.cons.inj h
      exact ⟨List.mem_cons_self, rest, rfl, fun _ => List.mem_cons_of_mem _⟩
  | cons first earlier ih =>
    cases requests with
    | nil => cases h
    | cons request rest =>
      obtain ⟨-, hrest⟩ := List.cons.inj h
      obtain ⟨hmem, later, hlater, hrequests⟩ := ih hrest
      exact ⟨List.mem_cons_of_mem _ hmem, later, hlater, fun other hother =>
        List.mem_cons_of_mem _ (hrequests other hother)⟩

/-- A request waits for as long as its latch is not cleared. -/
theorem pending_kept (hsimple : ∀ request ∈ requests, request.isSimple = true)
    (hpending : cpu.registers.pending interrupt = true)
    (h : cpu.moments requests = between ++ next :: later)
    (hbetween : ∀ moment ∈ between, moment.clears interrupt = false) :
    next.before.registers.pending interrupt = true := by
  -- along the moments in between, each of which is that of the next request
  induction between generalizing cpu requests with
  | nil =>
    cases requests with
    | nil => cases h
    | cons request rest =>
      obtain ⟨rfl, -⟩ := List.cons.inj h
      exact hpending
  | cons first between ih =>
    cases requests with
    | nil => cases h
    | cons request rest =>
      obtain ⟨rfl, hrest⟩ := List.cons.inj h
      obtain ⟨hfirst, hbetween⟩ := List.forall_mem_cons.mp hbetween
      obtain ⟨hrequest, hsimple⟩ := List.forall_mem_cons.mp hsimple
      refine ih hsimple ?_ hrest hbetween
      rw [Moment.pending_after hrequest, hpending, hfirst]
      simp

/-- A request that was just made waits for as long as its latch is not cleared. -/
theorem pending_of_raised (hsimple : ∀ request ∈ requests, request.isSimple = true)
    (h : cpu.moments requests = earlier ++ moment :: (between ++ next :: later))
    (hraises : moment.request.raises interrupt = true)
    (hbetween : ∀ moment ∈ between, moment.clears interrupt = false) :
    next.before.registers.pending interrupt = true := by
  obtain ⟨hmem, rest, hrest, hrequests⟩ := moments_split h
  refine pending_kept (fun request hrequest => hsimple request (hrequests request hrequest)) ?_
    hrest.symm hbetween
  rw [Moment.pending_after (hsimple _ hmem), hraises, Bool.true_or]

/-- The entry of a handler uses up a request that waited. -/
theorem served_add_pending_le (hsimple : moment.request.isSimple = true) (interrupt : Interrupt) :
    (moment.served? == some interrupt).toNat + (moment.after.registers.pending interrupt).toNat ≤
      (moment.request.raises interrupt).toNat +
        (moment.before.registers.pending interrupt).toNat := by
  rw [Moment.pending_after hsimple]
  cases hserved : moment.served? == some interrupt with
  | true =>
    have hserved := eq_of_beq hserved
    have hclears : moment.clears interrupt = true := by simp [Moment.clears, hserved]
    rw [Moment.served?_eq] at hserved
    split at hserved
    · next hexecuted =>
      obtain ⟨hraises, -⟩ := Moment.request_of_executed hexecuted interrupt
      simp [hraises, hclears, Registers.pending_of_due hserved]
    · cases hserved
  | false =>
    cases moment.request.raises interrupt <;>
      cases moment.before.registers.pending interrupt <;> cases moment.clears interrupt <;> simp

/-- The handlers that are entered in a session were requested in it, but for one request that
may have waited before. -/
theorem countP_served_le (hsimple : ∀ request ∈ requests, request.isSimple = true)
    (cpu : Cpu M σ) (interrupt : Interrupt) :
    (cpu.moments requests).countP (·.served? == some interrupt) ≤
      (cpu.moments requests).countP (·.request.raises interrupt) +
        (cpu.registers.pending interrupt).toNat := by
  -- a latch carries at most one request over to the moments that follow
  induction requests generalizing cpu with
  | nil => exact Nat.zero_le _
  | cons request rest ih =>
    obtain ⟨hrequest, hsimple⟩ := List.forall_mem_cons.mp hsimple
    let moment : Moment M σ := ⟨cpu, request⟩
    have hfirst : (moment.served? == some interrupt).toNat +
        (moment.after.registers.pending interrupt).toNat ≤
        (moment.request.raises interrupt).toNat + (cpu.registers.pending interrupt).toNat :=
      served_add_pending_le hrequest interrupt
    have hrest := ih hsimple moment.after
    have hcount (p : Moment M σ → Bool) :
        (cpu.moments (request :: rest)).countP p =
          (moment.after.moments rest).countP p + (p moment).toNat := by
      show (moment :: moment.after.moments rest).countP p = _
      rw [List.countP_cons]
      cases p moment <;> rfl
    rw [hcount, hcount]
    omega

/-! ## The order of interrupts -/

/-- Interrupts are neither lost, nor repeated, nor out of order. -/
structure InOrder (moments : List (Moment M σ)) : Prop where
  /-- A step that is carried out enters the handler of an NMI exactly if one waits, and
  otherwise that of an IRQ exactly if one waits and interrupts are not disabled. -/
  entries : ∀ moment ∈ moments, moment.executed = true →
    (moment.served? = some .nmi ↔ moment.before.registers.nmiPending = true) ∧
    (moment.served? = some .irq ↔ moment.before.registers.nmiPending = false ∧
      moment.before.registers.irqPending = true ∧
      moment.before.registers.flags.interruptDisable = false)
  /-- An NMI is entered at the first step that is carried out after the request. -/
  nmi_next : ∀ earlier before between next later,
    moments = earlier ++ ⟨before, .requestNmi⟩ :: (between ++ next :: later) →
    (∀ moment ∈ between, moment.executed = false) → next.executed = true →
    next.served? = some .nmi
  /-- An IRQ waits until it is entered or withdrawn, whatever is carried out until then. -/
  irq_waits : ∀ earlier before between next later,
    moments = earlier ++ ⟨before, .requestIrq⟩ :: (between ++ next :: later) →
    (∀ moment ∈ between, moment.served? ≠ some .irq ∧ moment.request.withdraws .irq = false) →
    next.before.registers.irqPending = true
  /-- It is entered at the first step that begins with interrupts not disabled and without an
  NMI waiting. -/
  irq_next : ∀ earlier before between next later,
    moments = earlier ++ ⟨before, .requestIrq⟩ :: (between ++ next :: later) →
    (∀ moment ∈ between, moment.request.withdraws .irq = false ∧
      (moment.executed = true → moment.before.registers.flags.interruptDisable = true ∨
        moment.before.registers.nmiPending = true)) →
    next.executed = true → next.before.registers.flags.interruptDisable = false →
    next.before.registers.nmiPending = false → next.served? = some .irq
  /-- No handler is entered more often than its interrupt is requested. -/
  counted : ∀ interrupt, moments.countP (·.served? == some interrupt) ≤
    moments.countP (·.request.raises interrupt)
  /-- A refused step changes no latch, and no other register. -/
  refused : ∀ moment ∈ moments, moment.request = .step → moment.executed = false →
    moment.after.registers = moment.before.registers
  /-- Every entry does all that belongs to it. -/
  entered : ∀ moment ∈ moments, ∀ interrupt, moment.served? = some interrupt →
    moment.EntersHandler interrupt

/-- Which interrupt a step that is carried out enters. -/
theorem served?_iff (h : moment.executed = true) :
    (moment.served? = some .nmi ↔ moment.before.registers.nmiPending = true) ∧
      (moment.served? = some .irq ↔ moment.before.registers.nmiPending = false ∧
        moment.before.registers.irqPending = true ∧
        moment.before.registers.flags.interruptDisable = false) := by
  rw [Moment.served?_eq, if_pos h, Registers.due?]
  cases moment.before.registers.nmiPending <;> cases moment.before.registers.irqPending <;>
    cases moment.before.registers.flags.interruptDisable <;> simp

/-- Whatever program a processor runs on whatever memory, and whatever hooks refuse, if no
request waits at first, then in every session of steps, single steps, requests and withdrawals
interrupts are in order. The hook may be changed in between, passed by, and the profile
switched. -/
theorem inOrder_moments (cpu : Cpu M σ) (hirq : cpu.registers.irqPending = false)
    (hnmi : cpu.registers.nmiPending = false) (requests : List (Request σ))
    (hsimple : ∀ request ∈ requests, request.isSimple = true) :
    InOrder (cpu.moments requests) where
  entries moment _ hexecuted := served?_iff hexecuted
  nmi_next earlier before between next later hsplit hbetween hexecuted := by
    have hkept : ∀ moment ∈ between, moment.clears .nmi = false := fun moment hmem => by
      simp [Moment.clears, Moment.served?_of_not_executed (hbetween moment hmem),
        Request.withdraws]
    exact (served?_iff hexecuted).1.mpr (pending_of_raised hsimple hsplit rfl hkept)
  irq_waits earlier before between next later hsplit hbetween := by
    have hraises : (Request.requestIrq : Request σ).raises .irq = true := rfl
    refine pending_of_raised hsimple hsplit hraises fun moment hmem => ?_
    obtain ⟨hserved, hwithdraws⟩ := hbetween moment hmem
    simp [Moment.clears, hserved, hwithdraws]
  irq_next earlier before between next later hsplit hbetween hexecuted henabled hfirst := by
    refine (served?_iff hexecuted).2.mpr ⟨hfirst, ?_, henabled⟩
    have hraises : (Request.requestIrq : Request σ).raises .irq = true := rfl
    refine pending_of_raised hsimple hsplit hraises fun moment hmem => ?_
    obtain ⟨hwithdraws, hblocked⟩ := hbetween moment hmem
    -- a step before that was not free to enter the handler
    have hserved : moment.served? ≠ some .irq := by
      intro hserved
      cases hmoment : moment.executed with
      | false => simp [Moment.served?_of_not_executed hmoment] at hserved
      | true =>
        obtain ⟨hnone, -, hopen⟩ := (served?_iff hmoment).2.mp hserved
        simp [hnone, hopen, hmoment] at hblocked
    simp [Moment.clears, hserved, hwithdraws]
  counted interrupt := by
    have hle := countP_served_le hsimple cpu interrupt
    have hnone : cpu.registers.pending interrupt = false := by
      cases interrupt with
      | irq => exact hirq
      | nmi => exact hnmi
    rwa [hnone] at hle
  refused moment _ hrequest hexecuted := Moment.registers_of_refused hrequest hexecuted
  entered moment _ interrupt hserved := Moment.entersHandler hserved

/-- A processor that has just been switched on serves an NMI before an IRQ. -/
theorem nmi_served_first :
    let cpu : Cpu PlainMemory Unit := powerOn (PlainMemory.zeros 0) ()
    (cpu.moments [.requestIrq, .requestNmi, .step]).map (·.served?) = [none, none, some .nmi] := by
  intro cpu
  have horder := inOrder_moments cpu rfl rfl [.requestIrq, .requestNmi, .step]
    (by simp [Request.isSimple])
  have hhook : cpu.requestIrq.requestNmi.hook = none := rfl
  -- what is left does not depend on how the processor came about
  clear_value cpu
  have hexecuted : Moment.executed ⟨cpu.requestIrq.requestNmi, .step⟩ = true := by
    have hstep := step_of_hook_eq_none hhook
    simp [Moment.executed, Moment.answer, perform, hstep]
  have hserved := horder.nmi_next [⟨cpu, .requestIrq⟩] cpu.requestIrq []
    ⟨cpu.requestIrq.requestNmi, .step⟩ [] rfl (by simp) hexecuted
  exact congrArg (fun entry => [none, none, entry]) hserved

end AppleOne.Cpu
