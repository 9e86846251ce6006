import Tm4cPilot.Lib.Run

/-!
# The RC input of the TM4C129x board

`dev_rc_in.c`: the interrupt handler of the pin measures the time between edges and decodes PPM
frames.
-/

namespace Tm4cPilot.RcIn

def rcInChNum : ℕ := 18

/-- `END_PULSE`, in microseconds. -/
def endPulse : UInt32 := 2500

/-- `struct rc_in_data`. -/
structure RcInData where
  timestampLastSignal : UInt64
  channelCount : ℕ
  rcFailsafe : Bool
  values : List UInt16
  deriving DecidableEq, Repr

/-- The states of the handler. -/
inductive ParseState where
  | matchEndPositive
  | matchEndNegative
  | matchPositive
  | matchNegative
  deriving DecidableEq, Repr

/-- An edge, with the timer at the start and the end of the handler. -/
structure Edge where
  isPositive : Bool
  tick : UInt64
  stamp : UInt64
  deriving DecidableEq, Repr

/-- The static variables of `dev_rc_in.c`. -/
structure Decoder where
  rcInData : RcInData
  curState : ParseState
  pulseIndex : ℕ
  pulseArrayTemp : ℕ → UInt16
  lastTick : UInt64
  lastNegativePulse : UInt32

namespace Decoder

/-- `data_init`, and the initial values of the other variables. -/
def init : Decoder where
  rcInData := ⟨0, 0, false, List.replicate rcInChNum 0⟩
  curState := .matchEndPositive
  pulseIndex := 0
  pulseArrayTemp _ := 0
  lastTick := 0
  lastNegativePulse := 0

variable (d : Decoder)

/-- The label `RESET`. -/
def reset : Decoder :=
  { d with curState := .matchEndPositive, lastTick := 0, lastNegativePulse := 0 }

/-- The label `COPY_DATA`, with the data that is published. -/
def copyData (stamp : UInt64) : Option RcInData × Decoder :=
  if d.pulseIndex < rcInChNum then
    let pulseArrayTemp := fun i => if i < d.pulseIndex then d.pulseArrayTemp i else 0
    let rcInData : RcInData :=
      { timestampLastSignal := stamp
        channelCount := d.pulseIndex
        rcFailsafe := false
        values := (List.range rcInChNum).map pulseArrayTemp }
    (some rcInData, { d with rcInData, pulseArrayTemp }.reset)
  else (none, d.reset)

theorem curState_copyData (stamp : UInt64) : (d.copyData stamp).2.curState = .matchEndPositive := by
  rw [copyData]
  split_ifs <;> rfl

/-- The time since the last edge. -/
def pulse (tick : UInt64) : UInt32 := (tick.toUInt32.toUInt64 - d.lastTick).toUInt32

/-- The interrupt handler. -/
def pinIntHandler (e : Edge) : Option RcInData × Decoder :=
  let pulse := d.pulse e.tick
  let d := { d with lastTick := e.tick.toUInt32.toUInt64 }
  match d.curState with
  | .matchEndPositive =>
    if e.isPositive then (none, { d with curState := .matchEndNegative }) else (none, d)
  | .matchEndNegative =>
    if e.isPositive then (none, d.reset)
    else if pulse < endPulse then (none, d.reset)
    else (none, { d with pulseIndex := 0, curState := .matchPositive })
  | .matchPositive =>
    if !e.isPositive then (none, d.reset)
    else (none, { d with curState := .matchNegative, lastNegativePulse := pulse })
  | .matchNegative =>
    if e.isPositive then (none, d.reset)
    else if endPulse ≤ pulse then d.copyData e.stamp
    else
      let d := { d with
        pulseArrayTemp := Function.update d.pulseArrayTemp d.pulseIndex
          (pulse + d.lastNegativePulse).toUInt16
        pulseIndex := d.pulseIndex + 1 }
      if rcInChNum ≤ d.pulseIndex then d.copyData e.stamp
      else (none, { d with curState := .matchPositive })

/-- What is published. -/
def publications (edges : List Edge) : List RcInData :=
  (Run.replies pinIntHandler d edges).reduceOption

theorem pulse_eq {s t : ℕ} (last : d.lastTick = (UInt64.ofNat s).toUInt32.toUInt64) (le : s ≤ t) :
    (d.pulse (UInt64.ofNat t)).toNat = (t - s) % 2 ^ 32 := by
  rw [pulse, last]
  simp only [UInt64.toNat_toUInt32, UInt64.toNat_sub, UInt32.toNat_toUInt64, UInt64.toNat_ofNat']
  omega

end Decoder

end Tm4cPilot.RcIn
