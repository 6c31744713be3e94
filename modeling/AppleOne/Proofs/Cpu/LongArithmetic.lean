import AppleOne.Proofs.Cpu.Frame
import Mathlib.Data.Nat.Digits.Defs
import Mathlib.Tactic.LinearCombination

/-!
# Arithmetic on numbers of many bytes

The accumulator holds one byte, so longer numbers are added and subtracted byte by byte, from the
lowest, with the carry flag to hand on what one byte does not hold. What happens between the bytes
does not matter as long as it leaves the carry and the decimal flag as they are.

Both operations and both modes follow one law. A byte stands for a digit, to the base 256 or, with
the decimal flag, to the base 100; and an operation gives a digit and a carry that together make up
the sum or the difference of its digits. In decimal subtraction the carry is that of the binary
difference, which serves as well because packed digits are in the same order as the bytes that
hold them.

## Main definitions

* `digit`, `IsDigit`, `base`: the digits of a mode; `number`, `signed`: what many of them stand for.
* `Computes`: the law of an operation.
* `Chained`: processors about to perform an operation for one byte after the other.
* `Adds`, `Subtracts`: what such steps do.

## Main results

* `computes_add`, `computes_subtract`: the law for single bytes.
* `number_results`, `overflow_flagsAfter`: the law for many bytes.
* `long_arithmetic`: sums and differences, their carries and overflows.
* `exists_chained`: numbers of the same length can be operated on.
-/

namespace AppleOne.Cpu

/-! ## Digits -/

/-- The base to which a byte is a digit. -/
def base (decimal : Bool) : Nat :=
  if decimal then 100 else 256

/-- The digit that a byte stands for; in decimal mode it has two places. -/
def digit (decimal : Bool) (b : UInt8) : Nat :=
  if decimal then b.toNat / 16 * 10 + b.toNat % 16 else b.toNat

/-- In decimal mode neither place goes beyond nine. -/
def IsDigit (decimal : Bool) (b : UInt8) : Prop :=
  decimal = true → b.toNat / 16 ≤ 9 ∧ b.toNat % 16 ≤ 9

/-- The number that bytes stand for, the lowest digit first. -/
def number (decimal : Bool) (bytes : List UInt8) : Nat :=
  Nat.ofDigits (base decimal) (bytes.map (digit decimal))

/-- The number that bytes stand for in two's complement. -/
def signed (bytes : List UInt8) : Int :=
  Int.bmod (number false bytes) (256 ^ bytes.length)

/-- A number that so many bytes can stand for in two's complement. -/
def Fits (length : Nat) (n : Int) : Prop :=
  -256 ^ length ≤ 2 * n ∧ 2 * n < 256 ^ length

instance (decimal : Bool) (b : UInt8) : Decidable (IsDigit decimal b) :=
  inferInstanceAs (Decidable (_ → _))

variable {decimal : Bool} {b c : UInt8} {bytes others : List UInt8}

theorem digit_lt_base (h : IsDigit decimal b) : digit decimal b < base decimal := by
  have hlt := b.toNat_lt
  cases decimal with
  | false => exact hlt
  | true =>
    obtain ⟨hhigh, hlow⟩ := h rfl
    show b.toNat / 16 * 10 + b.toNat % 16 < 100
    omega

/-- Different bytes are different digits. -/
theorem eq_of_digit_eq (hb : IsDigit decimal b) (hc : IsDigit decimal c)
    (h : digit decimal b = digit decimal c) : b = c := by
  apply UInt8.toNat_inj.mp
  cases decimal with
  | false => exact h
  | true =>
    obtain ⟨-, hlow⟩ := hb rfl
    obtain ⟨-, hlow'⟩ := hc rfl
    have h : b.toNat / 16 * 10 + b.toNat % 16 = c.toNat / 16 * 10 + c.toNat % 16 := h
    omega

theorem number_cons : number decimal (b :: bytes) =
    digit decimal b + base decimal * number decimal bytes := by
  rw [number, List.map_cons, Nat.ofDigits_cons]
  rfl

theorem number_lt (h : ∀ b ∈ bytes, IsDigit decimal b) :
    number decimal bytes < base decimal ^ bytes.length := by
  have hdigits : ∀ d ∈ bytes.map (digit decimal), d < base decimal := by
    simpa using fun b hb => digit_lt_base (h b hb)
  have hbase : 1 < base decimal := by cases decimal <;> decide
  have hlt := Nat.ofDigits_lt_base_pow_length hbase hdigits
  rwa [List.length_map] at hlt

/-- Digits can be read off a number. -/
theorem eq_of_number_eq (hbytes : ∀ b ∈ bytes, IsDigit decimal b)
    (hothers : ∀ b ∈ others, IsDigit decimal b) (hlength : bytes.length = others.length)
    (h : number decimal bytes = number decimal others) : bytes = others := by
  induction bytes generalizing others with
  | nil => exact (List.length_eq_zero_iff.mp hlength.symm).symm
  | cons b bytes ih =>
    obtain ⟨c, others, rfl⟩ := List.exists_cons_of_length_eq_add_one hlength.symm
    obtain ⟨hb, hbytes⟩ := List.forall_mem_cons.mp hbytes
    obtain ⟨hc, hothers⟩ := List.forall_mem_cons.mp hothers
    rw [number_cons, number_cons] at h
    have hmod := congrArg (· % base decimal) h
    have hdiv := congrArg (· / base decimal) h
    have hpos : 0 < base decimal := by cases decimal <;> decide
    simp only [Nat.add_mul_mod_self_left, Nat.mod_eq_of_lt (digit_lt_base hb),
      Nat.mod_eq_of_lt (digit_lt_base hc)] at hmod
    simp only [Nat.add_mul_div_left _ _ hpos, Nat.div_eq_of_lt (digit_lt_base hb),
      Nat.div_eq_of_lt (digit_lt_base hc), Nat.zero_add] at hdiv
    rw [eq_of_digit_eq hb hc hmod, ih hbytes hothers (Nat.succ.inj hlength) hdiv]

/-- The upper bytes carry the sign. -/
theorem signed_cons (hbytes : bytes ≠ []) : signed (b :: bytes) = b.toNat + 256 * signed bytes := by
  have hb := b.toNat_lt
  have hnumber := @number_lt false bytes fun _ _ => nofun
  obtain ⟨k, hk⟩ : ∃ k : Nat, 256 ^ bytes.length = 2 * k := by
    obtain ⟨n, hn⟩ := Nat.exists_eq_add_one.mpr (List.length_pos_iff.mpr hbytes)
    exact ⟨128 * 256 ^ n, by rw [hn, pow_succ]; ring⟩
  have hbase : base false ^ bytes.length = 2 * k := hk
  have hpow : (256 : Nat) ^ (b :: bytes).length = 256 * (2 * k) := by
    rw [List.length_cons, pow_succ, hk, Nat.mul_comm]
  have hdigit : number false (b :: bytes) = b.toNat + 256 * number false bytes := number_cons
  rw [signed, signed, hpow, hk, hdigit, Int.bmod_def, Int.bmod_def]
  rw [hbase] at hnumber
  push_cast
  -- neither of the numbers is as large as what it is reduced by
  rw [Int.emod_eq_of_lt (by omega) (by omega), Int.emod_eq_of_lt (by omega) (by omega)]
  omega

/-- One byte holds numbers from -128 to 127. -/
theorem signed_singleton (b : UInt8) :
    signed [b] = if b.toNat < 128 then (b.toNat : Int) else b.toNat - 256 := by
  have hb := b.toNat_lt
  have hnumber : number false [b] = b.toNat := Nat.ofDigits_singleton
  rw [signed, hnumber, Int.bmod_def]
  simp only [List.length_singleton, pow_one]
  omega

/-! ## Single bytes -/

/-- An operation computes a sum or, with the sign -1, a difference of two digits. What the carry
stands for is owed to the sum: one in addition if it is set, minus one in subtraction if it is
clear. -/
structure Computes (operation : UInt8 → UInt8 → Flags → UInt8 × Flags) (sign : Int)
    (owed : Bool → Int) : Prop where
  isDigit : ∀ a m flags, IsDigit flags.decimal a → IsDigit flags.decimal m →
    IsDigit flags.decimal (operation a m flags).1
  total : ∀ a m flags, IsDigit flags.decimal a → IsDigit flags.decimal m →
    (digit flags.decimal a : Int) + sign * digit flags.decimal m + owed flags.carry =
      digit flags.decimal (operation a m flags).1 +
        base flags.decimal * owed (operation a m flags).2.carry
  decimal : ∀ a m flags, (operation a m flags).2.decimal = flags.decimal
  overflow : ∀ a m flags, flags.decimal = false →
    ((operation a m flags).2.overflow = true ↔
      ¬ Fits 1 (signed [a] + sign * signed [m] + owed flags.carry))

/-- What a set carry stands for in addition. -/
def carried (carry : Bool) : Int := carry.toNat

/-- What a clear carry stands for in subtraction. -/
def borrowed (carry : Bool) : Int := carry.toNat - 1

theorem toNat_decide (p : Prop) [Decidable p] : (decide p).toNat = if p then 1 else 0 := by
  split <;> simp [*]

/-- The result is the binary sum as far as a byte holds it. -/
theorem toNat_addBinary (a m : UInt8) (flags : Flags) :
    (Arithmetic.addBinary a m flags).1.toNat =
      (a.toNat + m.toNat + flags.carry.toNat) % 256 :=
  UInt8.toNat_ofNat'

/-- The result and the carry make up the binary sum. -/
theorem total_addBinary (a m : UInt8) (flags : Flags) :
    a.toNat + m.toNat + flags.carry.toNat =
      (Arithmetic.addBinary a m flags).1.toNat +
        256 * (Arithmetic.addBinary a m flags).2.carry.toNat := by
  have ha := a.toNat_lt
  have hm := m.toNat_lt
  have hc := flags.carry.toNat_le
  have hcarry : (Arithmetic.addBinary a m flags).2.carry =
      decide (256 ≤ a.toNat + m.toNat + flags.carry.toNat) := rfl
  rw [toNat_addBinary, hcarry, toNat_decide]
  split <;> omega

/-- Two bytes of the same sign overflow if their sum has the other sign. -/
theorem overflow_addBinary (a m : UInt8) (flags : Flags) :
    (Arithmetic.addBinary a m flags).2.overflow = true ↔
      ¬ Fits 1 (signed [a] + signed [m] + flags.carry.toNat) := by
  have ha := a.toNat_lt
  have hm := m.toNat_lt
  have hc := flags.carry.toNat_le
  have hoverflow : (Arithmetic.addBinary a m flags).2.overflow =
      (isNegative a == isNegative m &&
        isNegative a != isNegative (Arithmetic.addBinary a m flags).1) := rfl
  rw [hoverflow]
  simp only [isNegative, toNat_addBinary, signed_singleton, Fits, Bool.and_eq_true, beq_iff_eq,
    bne_iff_ne, ne_eq, decide_eq_decide]
  omega

/-- Packed digits are added place by place, with the carries that they have as decimal digits. -/
theorem addDecimal_places {a m : UInt8} (flags : Flags) (ha : IsDigit true a)
    (hm : IsDigit true m) :
    ∃ low high, low = a.toNat % 16 + m.toNat % 16 + flags.carry.toNat ∧
      high = a.toNat / 16 + m.toNat / 16 + low / 10 ∧
      (Arithmetic.addDecimal a m flags).1.toNat % 16 = low % 10 ∧
      (Arithmetic.addDecimal a m flags).1.toNat / 16 = high % 10 ∧
      (Arithmetic.addDecimal a m flags).2.carry = decide (10 ≤ high) := by
  obtain ⟨hahigh, halow⟩ := ha rfl
  obtain ⟨hmhigh, hmlow⟩ := hm rfl
  have hc := flags.carry.toNat_le
  obtain ⟨low, hlow⟩ : ∃ low, low = a.toNat % 16 + m.toNat % 16 + flags.carry.toNat := ⟨_, rfl⟩
  obtain ⟨high, hhigh⟩ : ∃ high, high = a.toNat / 16 + m.toNat / 16 + low / 10 := ⟨_, rfl⟩
  have hsum : Arithmetic.decimalSum a.toNat m.toNat flags.carry.toNat = high * 16 + low % 10 := by
    simp only [Arithmetic.decimalSum, Arithmetic.decimalLow, ← hlow]
    split <;> omega
  -- the carry of the high digit is what the sum has beyond a byte after the correction
  have hcorrected : (if 160 ≤ high * 16 + low % 10 then high * 16 + low % 10 + 96
      else high * 16 + low % 10) = high / 10 * 256 + (high % 10 * 16 + low % 10) := by
    split <;> omega
  have hresult : (Arithmetic.addDecimal a m flags).1.toNat = high % 10 * 16 + low % 10 := by
    simp only [Arithmetic.addDecimal, hsum]
    rw [hcorrected, UInt8.toNat_ofNat']
    omega
  have hcarry : (Arithmetic.addDecimal a m flags).2.carry = decide (10 ≤ high) := by
    simp only [Arithmetic.addDecimal, hsum]
    rw [hcorrected, decide_eq_decide]
    omega
  refine ⟨low, high, hlow, hhigh, ?_, ?_, hcarry⟩
  · rw [hresult]
    omega
  · rw [hresult]
    omega

theorem computes_add : Computes Arithmetic.add 1 carried where
  isDigit a m flags ha hm := by
    cases hdecimal : flags.decimal with
    | false => exact nofun
    | true =>
      rw [hdecimal] at ha hm
      obtain ⟨low, high, -, -, hlow, hhigh, -⟩ := addDecimal_places flags ha hm
      rw [Arithmetic.add, if_pos hdecimal, IsDigit, hlow, hhigh]
      omega
  total a m flags ha hm := by
    cases hdecimal : flags.decimal with
    | false =>
      -- the law of the binary sum, in the words of the two modes
      have htotal := total_addBinary a m flags
      rw [Arithmetic.add, if_neg (by simp [hdecimal])]
      simp only [digit, base, carried, Bool.false_eq_true, if_false]
      omega
    | true =>
      rw [hdecimal] at ha hm
      obtain ⟨low, high, hlow, hhigh, hlow', hhigh', hcarry⟩ := addDecimal_places flags ha hm
      obtain ⟨hahigh, halow⟩ := ha rfl
      obtain ⟨hmhigh, hmlow⟩ := hm rfl
      have hc := flags.carry.toNat_le
      rw [Arithmetic.add, if_pos hdecimal]
      simp only [digit, base, carried, if_true, hlow', hhigh', hcarry, toNat_decide]
      split <;> omega
  decimal a m flags := (flags_add a m flags).1
  overflow a m flags hbinary := by
    rw [Arithmetic.add, if_neg (by simp [hbinary]), overflow_addBinary, Int.one_mul]
    rfl

/-- A place below zero borrows ten, which its correction by six makes up for. -/
theorem place_correction {n : Int} (hle : -10 ≤ n) (hlt : n < 10) :
    (if n < 0 then n - 6 else n) % 16 = n % 10 ∧ (if n < 0 then 1 else 0 : Int) = -(n / 10) := by
  split
  · exact ⟨by omega, by omega⟩
  · exact ⟨by omega, by omega⟩

/-- Packed digits are subtracted place by place, with the borrows that they have as decimal
digits. -/
theorem decimalDifference_places {a m : UInt8} (carry : Bool) (ha : IsDigit true a)
    (hm : IsDigit true m) :
    ∃ low high : Int, low = (a.toNat % 16 : Int) - m.toNat % 16 + borrowed carry ∧
      high = (a.toNat / 16 : Int) - m.toNat / 16 + low / 10 ∧
      ((Arithmetic.decimalDifference a m carry).toNat % 16 : Int) = low % 10 ∧
      ((Arithmetic.decimalDifference a m carry).toNat / 16 : Int) = high % 10 := by
  obtain ⟨hahigh, halow⟩ := ha rfl
  obtain ⟨hmhigh, hmlow⟩ := hm rfl
  obtain ⟨low, hlow⟩ : ∃ low : Int, low = (a.toNat % 16 : Int) - m.toNat % 16 + borrowed carry :=
    ⟨_, rfl⟩
  obtain ⟨high, hhigh⟩ : ∃ high : Int, high = (a.toNat / 16 : Int) - m.toNat / 16 + low / 10 :=
    ⟨_, rfl⟩
  -- a borrow is one that is subtracted, and what is owed is minus one that is added
  have hbinary : (a.toNat % 16 : Int) - m.toNat % 16 - (if carry then 0 else 1) = low := by
    rw [hlow]
    cases carry <;> rfl
  have hplaces : (a.toNat / 16 : Int) - m.toNat / 16 - -(low / 10) = high := by
    rw [hhigh, sub_neg_eq_add]
  obtain ⟨hlowDigit, hborrow⟩ := place_correction (n := low) (by omega) (by omega)
  obtain ⟨hhighDigit, -⟩ := place_correction (n := high) (by omega) (by omega)
  have hresult : ((Arithmetic.decimalDifference a m carry).toNat : Int) =
      high % 10 * 16 + low % 10 := by
    simp only [Arithmetic.decimalDifference, hbinary]
    rw [hlowDigit, hborrow, hplaces, hhighDigit, UInt8.toNat_ofNat']
    clear hbinary hplaces hborrow hlowDigit hhighDigit
    omega
  refine ⟨low, high, hlow, hhigh, ?_, ?_⟩
  · rw [hresult]
    omega
  · rw [hresult]
    omega

theorem fst_subtract (a m : UInt8) (flags : Flags) : (Arithmetic.subtract a m flags).1 =
    if flags.decimal then Arithmetic.decimalDifference a m flags.carry
    else (Arithmetic.addBinary a (~~~m) flags).1 := rfl

/-- The flags are those of the binary difference in either mode. -/
theorem snd_subtract (a m : UInt8) (flags : Flags) :
    (Arithmetic.subtract a m flags).2 = (Arithmetic.addBinary a (~~~m) flags).2 := rfl

/-- The result and the carry make up the binary difference. -/
theorem total_subtractBinary (a m : UInt8) (flags : Flags) :
    (a.toNat : Int) - m.toNat + borrowed flags.carry =
      (Arithmetic.addBinary a (~~~m) flags).1.toNat +
        256 * borrowed (Arithmetic.addBinary a (~~~m) flags).2.carry := by
  have hm := m.toNat_lt
  have htotal := total_addBinary a (~~~m) flags
  rw [toNat_complement] at htotal
  rw [borrowed, borrowed]
  omega

/-- Packed digits are in the order of the bytes, so the binary borrow is the decimal one. -/
theorem tens_eq_borrowed {a m result : UInt8} {carry carry' : Bool} {low high : Int}
    (ha : IsDigit true a) (hm : IsDigit true m)
    (hlow : low = (a.toNat % 16 : Int) - m.toNat % 16 + borrowed carry)
    (hhigh : high = (a.toNat / 16 : Int) - m.toNat / 16 + low / 10)
    (htotal : (a.toNat : Int) - m.toNat + borrowed carry =
      result.toNat + 256 * borrowed carry') : high / 10 = borrowed carry' := by
  obtain ⟨hahigh, halow⟩ := ha rfl
  obtain ⟨hmhigh, hmlow⟩ := hm rfl
  have hresult := result.toNat_lt
  have hc := carry.toNat_le
  rw [borrowed] at hlow htotal
  cases carry' with
  | false =>
    have hborrowed : borrowed false = -1 := rfl
    rw [hborrowed] at htotal ⊢
    omega
  | true =>
    have hborrowed : borrowed true = 0 := rfl
    rw [hborrowed] at htotal ⊢
    omega

theorem computes_subtract : Computes Arithmetic.subtract (-1) borrowed where
  isDigit a m flags ha hm := by
    cases hdecimal : flags.decimal with
    | false => exact nofun
    | true =>
      rw [hdecimal] at ha hm
      obtain ⟨low, high, -, -, hlow, hhigh⟩ := decimalDifference_places flags.carry ha hm
      rw [fst_subtract, if_pos hdecimal]
      intro _
      omega
  total a m flags ha hm := by
    have htotal := total_subtractBinary a m flags
    rw [fst_subtract, snd_subtract]
    cases hdecimal : flags.decimal with
    | false =>
      rw [if_neg (by simp)]
      simp only [digit, base, Bool.false_eq_true, if_false]
      linear_combination htotal
    | true =>
      rw [hdecimal] at ha hm
      obtain ⟨low, high, hlow, hhigh, hlow', hhigh'⟩ := decimalDifference_places flags.carry ha hm
      -- in decimal mode the borrow out of the high digit is the carry of the binary difference
      have htens := tens_eq_borrowed ha hm hlow hhigh htotal
      rw [if_pos rfl, ← htens]
      simp only [digit, base, if_true]
      omega
  decimal a m flags := rfl
  overflow a m flags _ := by
    -- subtracting is adding the complement, whose value is less by one than the negative
    have hsigned : signed [~~~m] = -1 * signed [m] - 1 := by
      have hm := m.toNat_lt
      rw [signed_singleton, signed_singleton, toNat_complement]
      split <;> split <;> omega
    rw [snd_subtract, overflow_addBinary, hsigned, borrowed]
    have hsame : signed [a] + (-1 * signed [m] - 1) + (flags.carry.toNat : Int) =
        signed [a] + -1 * signed [m] + (flags.carry.toNat - 1) := by ring
    rw [hsame]

/-! ## Many bytes -/

section Chain

variable {M σ : Type} [Memory M]

/-- Processors about to perform an operation for one byte after the other. Each has the carry and
the mode that the step before left behind, and the first one has those of the given flags. -/
def Chained (operation : Operation) : Flags → List (Cpu M σ) → Prop
  | _, [] => True
  | flags, cpu :: cpus =>
    cpu.Performs operation ∧ cpu.registers.flags.carry = flags.carry ∧
      cpu.registers.flags.decimal = flags.decimal ∧
        Chained operation cpu.step.2.registers.flags cpus

/-- The flags when the last of the steps is done. -/
def flagsAfter (flags : Flags) : List (Cpu M σ) → Flags
  | [] => flags
  | cpu :: cpus => flagsAfter cpu.step.2.registers.flags cpus

/-- The bytes in the accumulator before each step. -/
def accumulators (cpus : List (Cpu M σ)) : List UInt8 := cpus.map (·.registers.a)

/-- The bytes that the steps read. -/
def operands (cpus : List (Cpu M σ)) : List UInt8 := cpus.map operand

/-- The bytes in the accumulator after each step. -/
def results (cpus : List (Cpu M σ)) : List UInt8 := cpus.map (·.step.2.registers.a)

/-- All bytes that go into the steps are digits. -/
def HasDigits (decimal : Bool) (cpus : List (Cpu M σ)) : Prop :=
  ∀ cpu ∈ cpus, IsDigit decimal cpu.registers.a ∧ IsDigit decimal cpu.operand

variable {operation : Operation} {f : UInt8 → UInt8 → Flags → UInt8 × Flags} {sign : Int}
  {owed : Bool → Int} {cpu : Cpu M σ} {cpus : List (Cpu M σ)} {flags : Flags}

theorem Performs.step (h : cpu.Performs operation)
    (heffect : operation.effect = .load (Registers.accumulate f)) :
    f cpu.registers.a cpu.operand cpu.registers.flags =
      (cpu.step.2.registers.a, cpu.step.2.registers.flags) := by
  rw [← h.operation] at heffect
  have houtcome := outcome_current h.due? h.ran
  rw [outcome_load _ _ heffect] at houtcome
  have hregisters : _ = cpu.step.2.registers := congrArg Prod.fst houtcome
  rw [← hregisters]
  rfl

/-- What one step does to its digits, in the mode that the chain is in. -/
theorem Computes.step (hf : Computes f sign owed) (h : cpu.Performs operation)
    (heffect : operation.effect = .load (Registers.accumulate f))
    (hcarry : cpu.registers.flags.carry = flags.carry)
    (hdecimal : cpu.registers.flags.decimal = flags.decimal)
    (ha : IsDigit flags.decimal cpu.registers.a) (hm : IsDigit flags.decimal cpu.operand) :
    IsDigit flags.decimal cpu.step.2.registers.a ∧
      (digit flags.decimal cpu.registers.a : Int) + sign * digit flags.decimal cpu.operand +
          owed flags.carry =
        digit flags.decimal cpu.step.2.registers.a +
          base flags.decimal * owed cpu.step.2.registers.flags.carry ∧
      cpu.step.2.registers.flags.decimal = flags.decimal := by
  rw [← hdecimal] at ha hm
  have hisDigit := hf.isDigit _ _ _ ha hm
  have htotal := hf.total _ _ _ ha hm
  have hmode := hf.decimal cpu.registers.a cpu.operand cpu.registers.flags
  rw [h.step heffect] at hisDigit htotal hmode
  rw [hdecimal] at hisDigit htotal hmode
  rw [hcarry] at htotal
  exact ⟨hisDigit, htotal, hmode⟩

/-- The law for many digits: what is owed after the last of them counts for the next place. -/
theorem number_results (hf : Computes f sign owed)
    (heffect : operation.effect = .load (Registers.accumulate f))
    (hchained : Chained operation flags cpus) (hdigits : HasDigits flags.decimal cpus) :
    (number flags.decimal (accumulators cpus) : Int) +
        sign * number flags.decimal (operands cpus) + owed flags.carry =
      number flags.decimal (results cpus) +
        base flags.decimal ^ cpus.length * owed (flagsAfter flags cpus).carry ∧
    ∀ b ∈ results cpus, IsDigit flags.decimal b := by
  induction cpus generalizing flags with
  | nil => exact ⟨by simp [accumulators, operands, results, number, flagsAfter], nofun⟩
  | cons cpu cpus ih =>
    obtain ⟨hperforms, hcarry, hdecimal, hrest⟩ := hchained
    obtain ⟨⟨ha, hm⟩, hdigits⟩ := List.forall_mem_cons.mp hdigits
    obtain ⟨hresult, htotal, hmode⟩ := hf.step hperforms heffect hcarry hdecimal ha hm
    -- the step leaves the mode, so the digits that follow are those of its flags
    rw [← hmode] at hdigits
    obtain ⟨htotals, hresults⟩ := ih hrest hdigits
    rw [hmode] at htotals hresults
    refine ⟨?_, List.forall_mem_cons.mpr ⟨hresult, hresults⟩⟩
    simp only [accumulators, operands, results, List.map_cons, number_cons, flagsAfter,
      List.length_cons] at htotals ⊢
    push_cast
    linear_combination htotal + (base flags.decimal : Int) * htotals

/-- The lowest byte does not matter for the size of a number. -/
theorem fits_cons {length : Nat} (h : length ≠ 0) (b : UInt8) (n : Int) :
    Fits (length + 1) (b.toNat + 256 * n) ↔ Fits length n := by
  have hb := b.toNat_lt
  obtain ⟨k, hk⟩ : ∃ k : Int, 256 ^ length = 2 * k := by
    obtain ⟨l, rfl⟩ := Nat.exists_eq_succ_of_ne_zero h
    exact ⟨128 * 256 ^ l, by rw [pow_succ]; ring⟩
  rw [Fits, Fits, pow_succ, hk]
  omega

/-- The law for the sign: only the highest byte has one, and its step tells the overflow. -/
theorem overflow_flagsAfter (hf : Computes f sign owed)
    (heffect : operation.effect = .load (Registers.accumulate f))
    (hchained : Chained operation flags cpus) (hbinary : flags.decimal = false)
    (hcpus : cpus ≠ []) :
    (flagsAfter flags cpus).overflow = true ↔ ¬ Fits cpus.length
      (signed (accumulators cpus) + sign * signed (operands cpus) + owed flags.carry) := by
  induction cpus generalizing flags with
  | nil => exact absurd rfl hcpus
  | cons cpu cpus ih =>
    obtain ⟨hperforms, hcarry, hdecimal, hrest⟩ := hchained
    by_cases hlast : cpus = []
    · subst hlast
      have hoverflow := hf.overflow cpu.registers.a cpu.operand cpu.registers.flags
        (hdecimal.trans hbinary)
      rw [hperforms.step heffect, hcarry] at hoverflow
      exact hoverflow
    · -- in binary mode every byte is a digit
      have hdigit (b : UInt8) : IsDigit flags.decimal b := fun h =>
        absurd (hbinary.symm.trans h) nofun
      obtain ⟨-, htotal, hmode⟩ :=
        hf.step hperforms heffect hcarry hdecimal (hdigit _) (hdigit _)
      rw [hbinary] at htotal
      have hsum : signed (accumulators (cpu :: cpus)) + sign * signed (operands (cpu :: cpus)) +
          owed flags.carry = cpu.step.2.registers.a.toNat + 256 *
            (signed (accumulators cpus) + sign * signed (operands cpus) +
              owed cpu.step.2.registers.flags.carry) := by
        have htotal : (cpu.registers.a.toNat : Int) + sign * cpu.operand.toNat + owed flags.carry =
          cpu.step.2.registers.a.toNat + 256 * owed cpu.step.2.registers.flags.carry := htotal
        simp only [accumulators, operands, List.map_cons]
        rw [signed_cons (by simpa using hlast), signed_cons (by simpa using hlast)]
        linear_combination htotal
      rw [hsum, List.length_cons, fits_cons (by simpa using hlast)]
      exact ih hrest (hmode.trans hbinary) hlast

/-! ## Sums and differences -/

/-- Steps that add one number of many bytes to another. -/
structure Adds (flags : Flags) (cpus : List (Cpu M σ)) : Prop where
  result : number flags.decimal (results cpus) =
    (number flags.decimal (accumulators cpus) + number flags.decimal (operands cpus) +
      flags.carry.toNat) % base flags.decimal ^ cpus.length
  isDigit : ∀ b ∈ results cpus, IsDigit flags.decimal b
  carry : (flagsAfter flags cpus).carry = true ↔ base flags.decimal ^ cpus.length ≤
      number flags.decimal (accumulators cpus) + number flags.decimal (operands cpus) +
        flags.carry.toNat
  overflow : flags.decimal = false → cpus ≠ [] →
    ((flagsAfter flags cpus).overflow = true ↔ ¬ Fits cpus.length
      (signed (accumulators cpus) + signed (operands cpus) + flags.carry.toNat))

/-- Steps that subtract one number of many bytes from another. A clear carry is a borrow. -/
structure Subtracts (flags : Flags) (cpus : List (Cpu M σ)) : Prop where
  result : (number flags.decimal (results cpus) : Int) =
    (number flags.decimal (accumulators cpus) - number flags.decimal (operands cpus) -
      (1 - flags.carry.toNat)) % base flags.decimal ^ cpus.length
  isDigit : ∀ b ∈ results cpus, IsDigit flags.decimal b
  carry : (flagsAfter flags cpus).carry = true ↔
    (0 : Int) ≤ number flags.decimal (accumulators cpus) -
      number flags.decimal (operands cpus) - (1 - flags.carry.toNat)
  overflow : flags.decimal = false → cpus ≠ [] →
    ((flagsAfter flags cpus).overflow = true ↔ ¬ Fits cpus.length
      (signed (accumulators cpus) - signed (operands cpus) - (1 - flags.carry.toNat)))

theorem adds_of_chained (hchained : Chained .adc flags cpus)
    (hdigits : HasDigits flags.decimal cpus) : Adds flags cpus := by
  obtain ⟨htotal, hresults⟩ := number_results computes_add rfl hchained hdigits
  have hlt := number_lt hresults
  rw [results, List.length_map] at hlt
  have hc := (flagsAfter flags cpus).carry.toNat_le
  rw [Int.one_mul, carried, carried] at htotal
  have htotal : number flags.decimal (accumulators cpus) + number flags.decimal (operands cpus) +
      flags.carry.toNat = number flags.decimal (results cpus) +
        base flags.decimal ^ cpus.length * (flagsAfter flags cpus).carry.toNat := by
    exact_mod_cast htotal
  refine ⟨?_, hresults, ?_, fun hbinary hcpus => ?_⟩
  · rw [htotal, Nat.add_mul_mod_self_left]
    exact (Nat.mod_eq_of_lt hlt).symm
  · rw [htotal, results]
    cases (flagsAfter flags cpus).carry with
    | false => simpa using hlt
    | true => simp
  · have hoverflow := overflow_flagsAfter computes_add rfl hchained hbinary hcpus
    rwa [Int.one_mul] at hoverflow

theorem subtracts_of_chained (hchained : Chained .sbc flags cpus)
    (hdigits : HasDigits flags.decimal cpus) : Subtracts flags cpus := by
  obtain ⟨htotal, hresults⟩ := number_results computes_subtract rfl hchained hdigits
  have hlt : (number flags.decimal (results cpus) : Int) < base flags.decimal ^ cpus.length := by
    have hlt := number_lt hresults
    rw [results, List.length_map] at hlt
    exact_mod_cast hlt
  have htotal : (number flags.decimal (accumulators cpus) : Int) -
      number flags.decimal (operands cpus) - (1 - flags.carry.toNat) =
        number flags.decimal (results cpus) +
          base flags.decimal ^ cpus.length * ((flagsAfter flags cpus).carry.toNat - 1) := by
    rw [borrowed, borrowed] at htotal
    linear_combination htotal
  refine ⟨?_, hresults, ?_, fun hbinary hcpus => ?_⟩
  · rw [htotal, Int.add_mul_emod_self_left]
    exact (Int.emod_eq_of_lt (Int.natCast_nonneg _) hlt).symm
  · rw [htotal]
    cases (flagsAfter flags cpus).carry with
    | false => simpa using hlt
    | true => simp
  · rw [overflow_flagsAfter computes_subtract rfl hchained hbinary hcpus, borrowed]
    have hsame : signed (accumulators cpus) + -1 * signed (operands cpus) +
        ((flags.carry.toNat : Int) - 1) =
          signed (accumulators cpus) - signed (operands cpus) - (1 - flags.carry.toNat) := by ring
    rw [hsame]

/-- Subtracting what was added leaves what was there before. -/
theorem results_of_adds {flags' : Flags} {adding subtracting : List (Cpu M σ)}
    (hadding : Chained .adc flags adding) (hsubtracting : Chained .sbc flags' subtracting)
    (hdecimal : flags'.decimal = flags.decimal) (hcarry : flags.carry = false)
    (hcarry' : flags'.carry = true) (hdigits : HasDigits flags.decimal adding)
    (haccumulators : accumulators subtracting = results adding)
    (hoperands : operands subtracting = operands adding) :
    results subtracting = accumulators adding := by
  have hadds := adds_of_chained hadding hdigits
  have hlength : subtracting.length = adding.length := by
    have hlength := congrArg List.length hoperands
    simpa [operands] using hlength
  -- what was left by adding is taken from, digit by digit
  have hdigits' : HasDigits flags'.decimal subtracting := by
    intro cpu hcpu
    rw [hdecimal]
    have ha : cpu.registers.a ∈ accumulators subtracting := List.mem_map_of_mem hcpu
    have hm : cpu.operand ∈ operands subtracting := List.mem_map_of_mem hcpu
    rw [haccumulators] at ha
    rw [hoperands] at hm
    obtain ⟨other, hother, hoperand⟩ := List.mem_map.mp hm
    exact ⟨hadds.isDigit _ ha, hoperand ▸ (hdigits other hother).2⟩
  have hsubtracts := subtracts_of_chained hsubtracting hdigits'
  have haccumulated : ∀ b ∈ accumulators adding, IsDigit flags.decimal b := by
    intro b hb
    obtain ⟨cpu, hcpu, rfl⟩ := List.mem_map.mp hb
    exact (hdigits cpu hcpu).1
  -- numbers with as many digits are equal digit by digit
  refine eq_of_number_eq (fun b hb => hdecimal ▸ hsubtracts.isDigit b hb) haccumulated
    (by simp [results, accumulators, hlength]) ?_
  have hlt := number_lt haccumulated
  rw [accumulators, List.length_map] at hlt
  have hresult := hsubtracts.result
  rw [haccumulators, hoperands, hdecimal, hlength, hadds.result, hcarry, hcarry'] at hresult
  push_cast at hresult
  have hundone (x y : Int) : x + y + (false.toNat : Nat) - (y + (1 - (true.toNat : Nat))) = x := by
    rw [Bool.toNat_false, Bool.toNat_true]
    ring
  rw [Int.sub_sub, Int.emod_sub_emod, hundone, Int.emod_eq_of_lt (Int.natCast_nonneg _)
    (by exact_mod_cast hlt)] at hresult
  exact_mod_cast hresult

/-- Numbers of any length, binary or packed decimal, are added and subtracted byte by byte. The
last carry tells a sum that is too long, or a difference that is not negative; the overflow flag
tells a binary number that is out of range in two's complement. A number that was added can be
subtracted again. -/
theorem long_arithmetic :
    (∀ (flags : Flags) (cpus : List (Cpu M σ)), Chained .adc flags cpus →
      HasDigits flags.decimal cpus → Adds flags cpus) ∧
    (∀ (flags : Flags) (cpus : List (Cpu M σ)), Chained .sbc flags cpus →
      HasDigits flags.decimal cpus → Subtracts flags cpus) ∧
    ∀ (flags flags' : Flags) (adding subtracting : List (Cpu M σ)), Chained .adc flags adding →
      Chained .sbc flags' subtracting → flags'.decimal = flags.decimal → flags.carry = false →
      flags'.carry = true → HasDigits flags.decimal adding →
      accumulators subtracting = results adding → operands subtracting = operands adding →
        results subtracting = accumulators adding :=
  ⟨fun _ _ => adds_of_chained, fun _ _ => subtracts_of_chained, fun _ _ _ _ => results_of_adds⟩

end Chain

/-- A processor before a program. -/
def programmed (a : UInt8) (flags : Flags) (bytes : List UInt8) : Cpu PlainMemory Unit where
  registers := { Registers.initial with a, flags }
  memory := (PlainMemory.zeros 0).load 0 bytes
  memo := ()

theorem programmed_immediate (opcode m : UInt8) :
    let memory := (PlainMemory.zeros 0).load 0 [opcode, m]
    memory.get 0 = opcode ∧ memory.get (0 + 1) = m := by
  intro memory
  refine ⟨?_, PlainMemory.get_set _ _ _ _⟩
  refine (PlainMemory.get_set _ _ _ _).trans ?_
  exact PlainMemory.get_set _ _ _ _

/-- There are such steps for any two numbers of the same length. -/
theorem exists_chained {opcode : UInt8} (himmediate : (Instruction.decode opcode).mode = .immediate)
    (flags : Flags) {left right : List UInt8} (hlength : left.length = right.length) :
    ∃ cpus : List (Cpu PlainMemory Unit), Chained (Instruction.decode opcode).operation flags cpus ∧
      accumulators cpus = left ∧ operands cpus = right := by
  induction left generalizing flags right with
  | nil => exact ⟨[], trivial, rfl, (List.length_eq_zero_iff.mp hlength.symm).symm⟩
  | cons a left ih =>
    obtain ⟨m, right, rfl⟩ := List.exists_cons_of_length_eq_add_one hlength.symm
    let cpu := programmed a flags [opcode, m]
    obtain ⟨hopcode, hm⟩ := programmed_immediate opcode m
    have hcurrent : cpu.current = .decode opcode := congrArg Instruction.decode hopcode
    have hoperand : cpu.operand = m := by
      rw [operand, hcurrent, himmediate]
      exact hm
    obtain ⟨cpus, hchained, hleft, hright⟩ :=
      ih cpu.step.2.registers.flags (Nat.succ.inj hlength)
    refine ⟨cpu :: cpus, ⟨⟨rfl, rfl, by rw [hcurrent]⟩, rfl, rfl, hchained⟩, ?_, ?_⟩
    · exact congrArg (a :: ·) hleft
    · rw [operands, List.map_cons, hoperand]
      exact congrArg (m :: ·) hright

/-- 1290 and 3450 are 4740, and 3450 less than that is 1290 again. The higher digits are loaded
into the accumulator between the steps. -/
theorem long_arithmetic_decimal :
    let flags := { Flags.initial with decimal := true }
    let adding := programmed 0x90 flags [0x69, 0x50, 0xA9, 0x12, 0x69, 0x34]
    let subtracting :=
      programmed 0x40 { flags with carry := true } [0xE9, 0x50, 0xA9, 0x47, 0xE9, 0x34]
    number true (results [adding, adding.step.2.step.2]) = (1290 + 3450) % 100 ^ 2 ∧
      number true (results [subtracting, subtracting.step.2.step.2]) = 1290 := by
  intro flags adding subtracting
  have hadding : Chained .adc adding.registers.flags [adding, adding.step.2.step.2] :=
    ⟨⟨rfl, rfl, by decide +kernel⟩, rfl, rfl,
      ⟨by decide +kernel, by decide +kernel, by decide +kernel⟩, by decide +kernel,
      by decide +kernel, trivial⟩
  have hsubtracting : Chained .sbc subtracting.registers.flags
      [subtracting, subtracting.step.2.step.2] :=
    ⟨⟨rfl, rfl, by decide +kernel⟩, rfl, rfl,
      ⟨by decide +kernel, by decide +kernel, by decide +kernel⟩, by decide +kernel,
      by decide +kernel, trivial⟩
  have hdigits : HasDigits true [adding, adding.step.2.step.2] :=
    List.forall_mem_cons.mpr ⟨by decide +kernel, List.forall_mem_singleton.mpr (by decide +kernel)⟩
  obtain ⟨hadds, -, hrestores⟩ := @long_arithmetic PlainMemory Unit _
  have haccumulators : number true (accumulators [adding, adding.step.2.step.2]) = 1290 := by
    decide +kernel
  have hoperands : number true (operands [adding, adding.step.2.step.2]) = 3450 := by
    decide +kernel
  have hsum := (hadds _ _ hadding hdigits).result
  have hrestored := hrestores _ _ _ _ hadding hsubtracting rfl rfl rfl hdigits
    (by decide +kernel) (by decide +kernel)
  refine ⟨?_, ?_⟩
  · rw [← haccumulators, ← hoperands]
    exact hsum
  · rw [hrestored, haccumulators]

end AppleOne.Cpu
