import AppleOne.Proofs.Pia.History

/-!
# The two sides of the adapter

Port B does what port A does, under its own two registers and with its own lines. So an adapter
with its sides exchanged goes through the exchanged operations in the same way, and returns the
same bytes. The one thing that only port B has is the strobe, of which no register tells.

Neither side knows of the other. What is done to one of them can be left out of a run without any
difference to the other one; only ticks and resets concern both.

## Main definitions

* `Pia.mirror`, `Pia.Operation.mirror`: adapters and operations with the sides exchanged.
* `Pia.session`: what a run of operations returns, and what can be seen of the adapter.
* `Pia.Side.view`, `Pia.sights`: what can be seen of one side.

## Main results

* `Pia.session_mirror`: a run with the sides exchanged.
* `Pia.sights_filter`: a run without the operations of the other side.
* `Pia.sides_mirrored_and_apart`: both for any run.
-/

namespace AppleOne.Pia

/-! ## Exchanging the sides -/

namespace Side

/-- The other side. -/
def other : Side → Side
  | a => b
  | b => a

theorem other_ne (side : Side) : side.other ≠ side := by
  cases side <;> decide

end Side

/-- Port B in the place of port A. -/
def State.mirror (state : State) : State :=
  ⟨state.b, state.a⟩

/-- The adapter with its ports exchanged. -/
def mirror (pia : Pia) : Pia :=
  { pia with ports := pia.ports.mirror }

/-- The view of an adapter with its ports exchanged. -/
def View.mirror (view : View) : View :=
  ⟨view.state.mirror, view.interruptB, view.interruptA⟩

/-- The same register of the other side. -/
def Register.mirror : Register → Register
  | dataA => dataB
  | controlA => controlB
  | dataB => dataA
  | controlB => controlA

/-- The same offset on the other side: 0 and 1 are exchanged with 2 and 3. -/
def mirrorOffset (offset : UInt16) : UInt16 :=
  offset ^^^ 2

theorem ofOffset_mirrorOffset (offset : UInt16) :
    Register.ofOffset (mirrorOffset offset) = (Register.ofOffset offset).mirror := by
  -- the register is told by the two low bits, of which the second one is flipped
  have hlow : (mirrorOffset offset % 4).toNat = (offset % 4).toNat ^^^ 2 := by
    simp only [mirrorOffset, UInt16.toNat_mod, UInt16.toNat_xor]
    exact Nat.xor_mod_two_pow (n := 2)
  have hless : (offset % 4).toNat < 4 := by
    simp only [UInt16.toNat_mod]
    exact Nat.mod_lt _ (by decide)
  simp only [Register.ofOffset, ← UInt16.toNat_inj, hlow]
  generalize (offset % 4).toNat = low at hless
  match low, hless with
  | 0, _ | 1, _ | 2, _ | 3, _ => rfl

theorem ofOffset_mirrorOffset_eq_data (offset : UInt16) (side : Side) :
    Register.ofOffset (mirrorOffset offset) = side.data ↔
      Register.ofOffset offset = side.other.data := by
  rw [ofOffset_mirrorOffset]
  cases Register.ofOffset offset <;> cases side <;> decide

theorem ofOffset_mirrorOffset_eq_control (offset : UInt16) (side : Side) :
    Register.ofOffset (mirrorOffset offset) = side.control ↔
      Register.ofOffset offset = side.other.control := by
  rw [ofOffset_mirrorOffset]
  cases Register.ofOffset offset <;> cases side <;> decide

namespace Operation

/-- The same operation on the other side. -/
def mirror : Operation → Operation
  | read offset => read (mirrorOffset offset)
  | peek offset => peek (mirrorOffset offset)
  | write offset value => write (mirrorOffset offset) value
  | setInput side value => setInput side.other value
  | setLine side line level => setLine side.other line level
  | tick => tick
  | takeStrobe => takeStrobe
  | reset => reset

/-- The byte that an operation returns, if it returns one. -/
def byte? (operation : Operation) (pia : Pia) : Option UInt8 :=
  match operation with
  | read offset => some (pia.read offset).1
  | peek offset => some (pia.peek offset)
  | _ => none

/-- An exchanged operation does to a port what the operation does to the other one. -/
theorem onPort_mirror (operation : Operation) (side : Side) :
    operation.mirror.onPort side = operation.onPort side.other := by
  funext port
  cases operation with
  | read offset => simp only [mirror, onPort, ofOffset_mirrorOffset_eq_data]
  | write offset value =>
    simp only [mirror, onPort, ofOffset_mirrorOffset_eq_data, ofOffset_mirrorOffset_eq_control]
  | setInput side' value => cases side <;> cases side' <;> rfl
  | setLine side' line level => cases side <;> cases side' <;> rfl
  | peek | tick | takeStrobe | reset => rfl

end Operation

/-! ## Runs with the sides exchanged -/

/-- Does one thing after the other. Gives back every byte that is returned, with the view of the
adapter afterwards. -/
def session (pia : Pia) : List Operation → List (Option UInt8 × View) × Pia
  | [] => ([], pia)
  | operation :: rest =>
    let after := operation.perform pia
    let (seen, last) := after.session rest
    ((operation.byte? pia, after.view) :: seen, last)

variable {pia pia' : Pia}

/-- The ports of one adapter are those of the other one, exchanged. -/
theorem ports_eq_mirror_iff :
    pia'.ports = pia.ports.mirror ↔ ∀ side : Side, side.port pia' = side.other.port pia := by
  constructor
  · rintro h (- | -)
    · exact congrArg State.a h
    · exact congrArg State.b h
  · intro h
    have ha : pia'.ports.a = pia.ports.b := h .a
    have hb : pia'.ports.b = pia.ports.a := h .b
    rw [State.mirror, ← ha, ← hb]

theorem ports_perform_mirror (h : pia'.ports = pia.ports.mirror) (operation : Operation) :
    (operation.mirror.perform pia').ports = (operation.perform pia).ports.mirror := by
  rw [ports_eq_mirror_iff] at h ⊢
  intro side
  rw [port_perform, port_perform, operation.onPort_mirror, h side]

theorem peek_mirrorOffset (h : pia'.ports = pia.ports.mirror) (offset : UInt16) :
    pia'.peek (mirrorOffset offset) = pia.peek offset := by
  simp only [peek, ofOffset_mirrorOffset, a, b, h]
  cases Register.ofOffset offset <;> rfl

theorem read_mirrorOffset (h : pia'.ports = pia.ports.mirror) (offset : UInt16) :
    (pia'.read (mirrorOffset offset)).1 = (pia.read offset).1 := by
  simp only [read, peek, ofOffset_mirrorOffset, a, b, h]
  cases Register.ofOffset offset <;> rfl

theorem byte?_mirror (h : pia'.ports = pia.ports.mirror) (operation : Operation) :
    operation.mirror.byte? pia' = operation.byte? pia := by
  cases operation with
  | read offset => exact congrArg some (read_mirrorOffset h offset)
  | peek offset => exact congrArg some (peek_mirrorOffset h offset)
  | _ => rfl

theorem view_mirror (h : pia'.ports = pia.ports.mirror) : pia'.view = pia.view.mirror := by
  simp only [view, state, a, b, h]
  rfl

/-- The strobes of the two adapters do not matter. -/
theorem session_mirror (h : pia'.ports = pia.ports.mirror) (operations : List Operation) :
    (pia'.session (operations.map Operation.mirror)).1 =
        (pia.session operations).1.map (Prod.map id View.mirror) ∧
      (pia'.session (operations.map Operation.mirror)).2.ports =
        (pia.session operations).2.ports.mirror := by
  induction operations generalizing pia pia' with
  | nil => exact ⟨rfl, h⟩
  | cons operation rest ih =>
    -- that the ports are exchanged is all that is kept, as the strobes go their own ways
    have hafter := ports_perform_mirror h operation
    obtain ⟨hseen, hlast⟩ := ih hafter
    refine ⟨?_, hlast⟩
    simp only [List.map_cons, session, byte?_mirror h, view_mirror hafter, hseen]
    rfl

/-! ## One side alone -/

/-- What belongs to a side, and its interrupt. Only port B has a strobe. -/
structure Side.View where
  port : Port
  interrupt : Bool
  strobe : Option Bool
  deriving DecidableEq, Repr

namespace Side

/-- What can be seen of a side. -/
def view (side : Side) (pia : Pia) : Side.View where
  port := side.port pia
  interrupt := (side.port pia).interrupt
  strobe := match side with
    | a => none
    | b => some pia.strobe

end Side

/-- The side of a register. -/
def Register.side : Register → Side
  | dataA | controlA => .a
  | dataB | controlB => .b

/-- A register of one side is none of the other side. -/
theorem Register.ne_of_side {register : Register} {side : Side} (h : register.side = side.other) :
    register ≠ side.data ∧ register ≠ side.control := by
  revert h
  cases register <;> cases side <;> decide

namespace Operation

/-- The side to which something is done, unless it is done to both. -/
def side? : Operation → Option Side
  | read offset | peek offset | write offset _ => some (Register.ofOffset offset).side
  | setInput side _ | setLine side _ _ => some side
  | takeStrobe => some .b
  | tick | reset => none

/-- Leaves out what is done to the other side. -/
def sparing (side : Side) (operations : List Operation) : List Operation :=
  operations.filter (·.side? != some side.other)

end Operation

/-- What can be seen of a side in a run: the bytes that are returned by what is done to it or to
both sides, and the side afterwards. -/
def sights (side : Side) (pia : Pia) : List Operation → List (Option UInt8 × Side.View)
  | [] => []
  | operation :: rest =>
    let after := operation.perform pia
    if operation.side? = some side.other then sights side after rest
    else (operation.byte? pia, side.view after) :: sights side after rest

variable {side : Side} {operation : Operation}

/-- The interrupt is a matter of the port. -/
theorem view_eq_iff : side.view pia = side.view pia' ↔
    side.port pia = side.port pia' ∧ (side = .b → pia.strobe = pia'.strobe) := by
  simp only [Side.view, Side.View.mk.injEq]
  constructor
  · rintro ⟨hport, -, hstrobe⟩
    refine ⟨hport, ?_⟩
    rintro rfl
    exact Option.some.inj hstrobe
  · rintro ⟨hport, hstrobe⟩
    refine ⟨hport, congrArg Port.interrupt hport, ?_⟩
    cases side with
    | a => rfl
    | b => exact congrArg some (hstrobe rfl)

/-- The strobe after an operation is a matter of port B. -/
theorem strobe_perform (operation : Operation) (pia : Pia) :
    (operation.perform pia).strobe =
      match operation with
      | .write offset _ =>
        if Register.ofOffset offset = .dataB then pia.strobe || pia.b.dataSelected else pia.strobe
      | .takeStrobe | .reset => false
      | _ => pia.strobe := by
  cases operation with
  | read offset =>
    simp only [Operation.perform, Pia.read]
    cases Register.ofOffset offset <;> rfl
  | write offset value =>
    simp only [Operation.perform, Pia.write]
    cases Register.ofOffset offset <;> rfl
  | setInput side value => cases side <;> rfl
  | setLine side line level => cases side <;> rfl
  | peek | tick | takeStrobe | reset => rfl

/-- What becomes of a side is a matter of this side. -/
theorem view_perform_congr (h : side.view pia = side.view pia') (operation : Operation) :
    side.view (operation.perform pia) = side.view (operation.perform pia') := by
  obtain ⟨hport, hstrobe⟩ := view_eq_iff.mp h
  -- ports are changed one by one, so only the strobe could depend on anything else
  refine view_eq_iff.mpr ⟨by rw [port_perform, port_perform, hport], ?_⟩
  rintro rfl
  have hb : pia.b = pia'.b := hport
  rw [strobe_perform, strobe_perform, hb, hstrobe rfl]

/-- What is done to the other side makes no difference. -/
theorem view_perform_of_other (h : operation.side? = some side.other) (pia : Pia) :
    side.view (operation.perform pia) = side.view pia := by
  rw [view_eq_iff, port_perform, strobe_perform]
  cases operation with
  | read offset =>
    obtain ⟨hdata, -⟩ := Register.ne_of_side (Option.some.inj h)
    exact ⟨if_neg hdata, fun _ => rfl⟩
  | write offset value =>
    obtain ⟨hdata, hcontrol⟩ := Register.ne_of_side (Option.some.inj h)
    refine ⟨(if_neg hdata).trans (if_neg hcontrol), ?_⟩
    rintro rfl
    exact if_neg hdata
  | setInput side' value =>
    obtain rfl : side' = side.other := Option.some.inj h
    exact ⟨if_neg side.other_ne, fun _ => rfl⟩
  | setLine side' line level =>
    obtain rfl : side' = side.other := Option.some.inj h
    exact ⟨if_neg side.other_ne, fun _ => rfl⟩
  | peek offset => exact ⟨rfl, fun _ => rfl⟩
  | takeStrobe =>
    cases side with
    | a => exact ⟨rfl, nofun⟩
    | b => cases h
  | tick | reset => cases h

/-- Neither does the other side to what is returned. -/
theorem byte?_congr (h : side.view pia = side.view pia')
    (hside : operation.side? ≠ some side.other) :
    operation.byte? pia = operation.byte? pia' := by
  obtain ⟨hport, -⟩ := view_eq_iff.mp h
  cases operation with
  | read offset | peek offset =>
    cases side <;> cases hregister : Register.ofOffset offset <;>
      simp_all [Operation.side?, Operation.byte?, Register.side, Side.other, Side.port, Pia.read,
        Pia.peek]
  | _ => rfl

/-- Two runs show the same of a side if they begin with the same side and one of them leaves out
what is done to the other side. -/
theorem sights_filter (h : side.view pia = side.view pia') (operations : List Operation) :
    sights side pia operations = sights side pia' (Operation.sparing side operations) ∧
      side.view (pia.session operations).2 =
        side.view (pia'.session (Operation.sparing side operations)).2 := by
  induction operations generalizing pia pia' with
  | nil => exact ⟨rfl, h⟩
  | cons operation rest ih =>
    -- an operation is left out if it belongs to the other side, and then it is not seen either
    by_cases hside : operation.side? = some side.other
    · have hsparing : Operation.sparing side (operation :: rest) =
          Operation.sparing side rest :=
        List.filter_cons_of_neg (by simp [hside])
      obtain ⟨hsights, hlast⟩ := ih ((view_perform_of_other hside pia).trans h)
      rw [hsparing, sights, if_pos hside]
      exact ⟨hsights, hlast⟩
    · have hsparing : Operation.sparing side (operation :: rest) =
          operation :: Operation.sparing side rest :=
        List.filter_cons_of_pos (by simpa using hside)
      have hafter := view_perform_congr h operation
      obtain ⟨hsights, hlast⟩ := ih hafter
      rw [hsparing, sights, sights, if_neg hside, if_neg hside, byte?_congr h hside, hafter,
        hsights]
      exact ⟨rfl, hlast⟩

/-- In any run from any state, exchanging the sides everywhere exchanges them in what is seen and in
the last state, apart from the strobe. And leaving out what is done to one side changes nothing
that is returned or seen on the other one. -/
theorem sides_mirrored_and_apart (pia : Pia) (operations : List Operation) :
    ((pia.mirror.session (operations.map Operation.mirror)).1 =
        (pia.session operations).1.map (Prod.map id View.mirror) ∧
      (pia.mirror.session (operations.map Operation.mirror)).2.state =
        (pia.session operations).2.state.mirror) ∧
    ∀ side : Side,
      sights side pia operations = sights side pia (Operation.sparing side operations) ∧
      side.view (pia.session operations).2 =
        side.view (pia.session (Operation.sparing side operations)).2 :=
  ⟨session_mirror rfl operations, fun _ => sights_filter rfl operations⟩

end AppleOne.Pia
