import Mathlib
import Tm4cPilot.Lib.Run

/-!
# Pilot input and the radio failsafe

`Copter::read_radio` takes a new frame into the channels, and `set_throttle_and_failsafe` engages
the failsafe after three frames with a low throttle.  Without a frame for too long `read_radio` does
so itself.
-/

namespace Tm4cPilot.Copter

/-- `type_in`. -/
inductive ChannelType
  | angle
  | range
  deriving DecidableEq, Repr

/-- A channel: calibration, pulse width and control value. -/
structure RcChannel where
  radioMin : Int16
  radioTrim : Int16
  radioMax : Int16
  reversed : Bool
  deadZone : Int16
  typeIn : ChannelType
  highIn : Int16
  radioIn : Int16
  controlIn : Int16
  deriving DecidableEq, Repr

def constrainInt16 (amt low high : Int16) : Int16 :=
  if amt < low then low else if high < amt then high else amt

namespace RcChannel

/-- `pwm_to_range_dz`, with 32-bit intermediate values. -/
def pwmToRangeDz (c : RcChannel) (deadZone : UInt16) : Int16 :=
  let constrained := constrainInt16 c.radioIn c.radioMin c.radioMax
  let rIn := if c.reversed
    then Int16.ofInt (c.radioMax.toInt - (constrained.toInt - c.radioMin.toInt)) else constrained
  let radioTrimLow := Int16.ofInt (c.radioMin.toInt + deadZone.toNat)
  if radioTrimLow < rIn then
    Int16.ofInt ((c.highIn.toInt * (rIn.toInt - radioTrimLow.toInt)).tdiv
      (c.radioMax.toInt - radioTrimLow.toInt))
  else 0

def pwmToRange (c : RcChannel) : Int16 := c.pwmToRangeDz c.deadZone.toUInt16

def pwmToAngleDzTrim (c : RcChannel) (deadZone trim : UInt16) : Int16 :=
  let radioTrimHigh := Int16.ofInt (trim.toNat + deadZone.toNat)
  let radioTrimLow := Int16.ofInt (trim.toNat - deadZone.toNat)
  if radioTrimLow.toInt - c.radioMin.toInt = 0 ∨ c.radioMax.toInt - radioTrimHigh.toInt = 0 then 0
  else
    let reverseMul : ℤ := if c.reversed then -1 else 1
    if radioTrimHigh < c.radioIn then
      Int16.ofInt ((reverseMul * (c.highIn.toInt * (c.radioIn.toInt - radioTrimHigh.toInt))).tdiv
        (c.radioMax.toInt - radioTrimHigh.toInt))
    else if c.radioIn < radioTrimLow then
      Int16.ofInt ((reverseMul * (c.highIn.toInt * (c.radioIn.toInt - radioTrimLow.toInt))).tdiv
        (radioTrimLow.toInt - c.radioMin.toInt))
    else 0

def pwmToAngleDz (c : RcChannel) (deadZone : UInt16) : Int16 :=
  c.pwmToAngleDzTrim deadZone c.radioTrim.toUInt16

def pwmToAngle (c : RcChannel) : Int16 := c.pwmToAngleDz c.deadZone.toUInt16

def setPwm (c : RcChannel) (pwm : Int16) : RcChannel :=
  let c := { c with radioIn := pwm }
  { c with controlIn := match c.typeIn with
      | .range => c.pwmToRange
      | .angle => c.pwmToAngle }

@[simp] theorem setPwm_radioIn (c : RcChannel) (pwm : Int16) : (c.setPwm pwm).radioIn = pwm := rfl

/-- The channel has the values of `pwm`. -/
def Holds (c : RcChannel) (pwm : UInt16) : Prop :=
  c.radioIn = pwm.toInt16 ∧ c.controlIn = (c.setPwm pwm.toInt16).controlIn
deriving Decidable

theorem setPwm_holds (c : RcChannel) (pwm : UInt16) : (c.setPwm pwm.toInt16).Holds pwm := ⟨rfl, rfl⟩

theorem Holds.unique {c : RcChannel} {a b : UInt16} (ha : c.Holds a) (hb : c.Holds b) : a = b := by
  have same : a.toInt16 = b.toInt16 := ha.1.symm.trans hb.1
  rw [← UInt16.toUInt16_toInt16 a, same, UInt16.toUInt16_toInt16]

end RcChannel

/-! ## `read_radio` -/

def fsCounter : ℤ := 3

def fsRadioTimeoutMs : UInt32 := 500

def fsRadioRcOverrideTimeoutMs : UInt32 := 1000

def throttleZeroDebounceTimeMs : UInt32 := 400

/-- A frame of the receiver. -/
abbrev Frame := Fin 16 → UInt16

/-- `FS_THR_ENABLE`, `FS_THR_VALUE` and the throttle channel. -/
structure RadioParams where
  failsafeThrottle : Int8
  failsafeThrottleValue : Int16
  throttle : Fin 16
  deriving DecidableEq, Repr

/-- What a call of `read_radio` finds, with the clock of `set_throttle_zero_flag`. -/
structure RadioCall where
  now : UInt32
  frame : Option Frame
  rcOverrideActive : Bool
  armed : Bool
  usingInterlock : Bool
  motorEmergencyStop : Bool
  interlock : Bool
  zeroNow : UInt32
  deriving DecidableEq

/-- The channels and the failsafe. -/
structure Radio where
  channels : Fin 16 → RcChannel
  radio : Bool
  radioCounter : ℤ
  rcReceiverPresent : Bool
  newRadioFrame : Bool
  throttleZero : Bool
  lastNonzeroThrottleMs : UInt32
  lastRadioUpdateMs : UInt32
  deriving DecidableEq

/-- The calls it makes. -/
inductive RadioOutput
  | logLateFrame
  | failsafeRadioOnEvent
  | failsafeRadioOffEvent
  | notifyFailsafeRadio (b : Bool)
  deriving DecidableEq, Repr

/-- `RC_Channels::set_pwm_all`: `ch_in` of channel `i` is `i`. -/
def Radio.setPwmAll (s : Radio) (frame : Frame) : Radio :=
  { s with channels := fun i => (s.channels i).setPwm (frame i).toInt16 }

/-- `channel_throttle->set_pwm`. -/
def Radio.setThrottlePwm (g : RadioParams) (s : Radio) (pwm : UInt16) : Radio :=
  let throttle := (s.channels g.throttle).setPwm pwm.toInt16
  { s with channels := Function.update s.channels g.throttle throttle }

/-- `set_failsafe_radio`: acts on changes only. -/
def Radio.setFailsafeRadio (s : Radio) (b : Bool) : Radio × List RadioOutput :=
  if s.radio = b then (s, [])
  else ({ s with radio := b },
    [if b then .failsafeRadioOnEvent else .failsafeRadioOffEvent, .notifyFailsafeRadio b])

/-- The throttle is below `failsafe_throttle_value`. -/
def RadioParams.Low (g : RadioParams) (pwm : UInt16) : Prop :=
  pwm < g.failsafeThrottleValue.toUInt16
deriving Decidable

def Radio.setThrottleAndFailsafe (g : RadioParams) (armed : Bool) (s : Radio)
    (throttlePwm : UInt16) : Radio × List RadioOutput :=
  if g.failsafeThrottle = 0 then (s.setThrottlePwm g throttlePwm, [])
  else if g.Low throttlePwm then
    if s.radio = true ∨ ¬ (s.rcReceiverPresent = true ∨ armed = true) then
      (s.setThrottlePwm g throttlePwm, [])
    else
      let counted := { s with radioCounter := s.radioCounter + 1 }
      if fsCounter ≤ counted.radioCounter then
        let engaged := { counted with radioCounter := fsCounter }.setFailsafeRadio true
        (engaged.1.setThrottlePwm g throttlePwm, engaged.2)
      else (counted, [])
  else
    let counted := { s with radioCounter := s.radioCounter - 1 }
    let settled :=
      if counted.radioCounter ≤ 0 then
        if counted.radio = true then { counted with radioCounter := 0 }.setFailsafeRadio false
        else ({ counted with radioCounter := 0 }, [])
      else (counted, [])
    (settled.1.setThrottlePwm g throttlePwm, settled.2)

def Radio.setThrottleZeroFlag (c : RadioCall) (s : Radio) (throttleControl : Int16) : Radio :=
  if (c.usingInterlock = false ∧ 0 < throttleControl ∧ c.motorEmergencyStop = false) ∨
      (c.usingInterlock = true ∧ c.interlock = true) then
    { s with lastNonzeroThrottleMs := c.zeroNow, throttleZero := false }
  else if throttleZeroDebounceTimeMs < c.zeroNow - s.lastNonzeroThrottleMs then
    { s with throttleZero := true }
  else s

/-- `set_pwm_all` takes a new frame. -/
def Radio.received (s : Radio) (frame : Frame) : Radio :=
  { s with newRadioFrame := true }.setPwmAll frame

/-- The end of `read_radio` for a new frame. -/
def Radio.finishFrame (g : RadioParams) (c : RadioCall) (filtered : Radio) : Radio :=
  let flagged := filtered.setThrottleZeroFlag c (filtered.channels g.throttle).controlIn
  { flagged with
    rcReceiverPresent := if c.rcOverrideActive = false then true else flagged.rcReceiverPresent
    lastRadioUpdateMs := c.now }

/-- The branch of `read_radio` for a new frame. -/
def Radio.readFrame (g : RadioParams) (s : Radio) (c : RadioCall) (frame : Frame) :
    Radio × List RadioOutput :=
  let read := s.received frame
  let filtered := read.setThrottleAndFailsafe g c.armed
    (read.channels g.throttle).radioIn.toUInt16
  (filtered.1.finishFrame g c, filtered.2)

/-- The branch of `read_radio` for a call without a new frame. -/
def Radio.noFrame (g : RadioParams) (s : Radio) (c : RadioCall) : Radio × List RadioOutput :=
  let elapsed := c.now - s.lastRadioUpdateMs
  if ((c.rcOverrideActive = false ∧ fsRadioTimeoutMs ≤ elapsed) ∨
        (c.rcOverrideActive = true ∧ fsRadioRcOverrideTimeoutMs ≤ elapsed)) ∧
      g.failsafeThrottle ≠ 0 ∧ (s.rcReceiverPresent = true ∨ c.armed = true) ∧ s.radio = false then
    let engaged := s.setFailsafeRadio true
    (engaged.1, .logLateFrame :: engaged.2)
  else (s, [])

def Radio.readRadio (g : RadioParams) (s : Radio) (c : RadioCall) : Radio × List RadioOutput :=
  match c.frame with
  | some frame => s.readFrame g c frame
  | none => s.noFrame g c

/-! ## What one call does -/

section Filter

variable {g : RadioParams} {armed : Bool} {s : Radio} {pwm : UInt16}

theorem setFailsafeRadio_fst (s : Radio) (b : Bool) :
    (s.setFailsafeRadio b).1 = { s with radio := b } := by
  unfold Radio.setFailsafeRadio
  by_cases same : s.radio = b
  · simp [← same]
  · simp [same]

section

variable (enabled : g.failsafeThrottle ≠ 0)
include enabled

theorem filter_low_on (low : g.Low pwm) (on : s.radio = true) :
    (s.setThrottleAndFailsafe g armed pwm).1 = s.setThrottlePwm g pwm := by
  simp [Radio.setThrottleAndFailsafe, enabled, low, on]

theorem filter_low_engages (low : g.Low pwm) (off : s.radio = false)
    (present : s.rcReceiverPresent = true) (third : 2 ≤ s.radioCounter) :
    (s.setThrottleAndFailsafe g armed pwm).1 =
      { s with radioCounter := fsCounter, radio := true }.setThrottlePwm g pwm := by
  have reached : fsCounter ≤ s.radioCounter + 1 := by unfold fsCounter; omega
  simp [Radio.setThrottleAndFailsafe, enabled, low, off, present, reached, setFailsafeRadio_fst]

theorem filter_low_counts (low : g.Low pwm) (off : s.radio = false)
    (present : s.rcReceiverPresent = true) (early : s.radioCounter < 2) :
    (s.setThrottleAndFailsafe g armed pwm).1 = { s with radioCounter := s.radioCounter + 1 } := by
  have short : ¬ fsCounter ≤ s.radioCounter + 1 := by unfold fsCounter; omega
  simp [Radio.setThrottleAndFailsafe, enabled, low, off, present, short]

theorem filter_good_ends (good : ¬ g.Low pwm) (last : s.radioCounter ≤ 1) :
    (s.setThrottleAndFailsafe g armed pwm).1 =
      { s with radioCounter := 0, radio := false }.setThrottlePwm g pwm := by
  have used : s.radioCounter - 1 ≤ 0 := by omega
  cases on : s.radio <;>
    simp [Radio.setThrottleAndFailsafe, enabled, good, used, on, setFailsafeRadio_fst]

theorem filter_good_counts (good : ¬ g.Low pwm) (more : 1 < s.radioCounter) :
    (s.setThrottleAndFailsafe g armed pwm).1 =
      { s with radioCounter := s.radioCounter - 1 }.setThrottlePwm g pwm := by
  have left : ¬ s.radioCounter - 1 ≤ 0 := by omega
  simp [Radio.setThrottleAndFailsafe, enabled, good, left]

end

end Filter

theorem setThrottlePwm_throttle (g : RadioParams) (s : Radio) (pwm : UInt16) :
    (s.setThrottlePwm g pwm).channels g.throttle =
      (s.channels g.throttle).setPwm pwm.toInt16 := by
  simp [Radio.setThrottlePwm]

theorem setThrottleZeroFlag_eq (c : RadioCall) (s : Radio) (x : Int16) :
    ∃ zero ms, s.setThrottleZeroFlag c x =
      { s with throttleZero := zero, lastNonzeroThrottleMs := ms } := by
  unfold Radio.setThrottleZeroFlag
  split_ifs
  · exact ⟨_, _, rfl⟩
  · exact ⟨_, _, rfl⟩
  · exact ⟨s.throttleZero, s.lastNonzeroThrottleMs, rfl⟩

theorem finishFrame_eq (g : RadioParams) (c : RadioCall) (filtered : Radio) :
    ∃ zero ms present, (filtered.rcReceiverPresent = true → present = true) ∧
      filtered.finishFrame g c = { filtered with
        throttleZero := zero, lastNonzeroThrottleMs := ms, rcReceiverPresent := present,
        lastRadioUpdateMs := c.now } := by
  obtain ⟨zero, ms, flagged⟩ :=
    setThrottleZeroFlag_eq c filtered (filtered.channels g.throttle).controlIn
  refine ⟨zero, ms, if c.rcOverrideActive = false then true else filtered.rcReceiverPresent,
    fun present => by simp [present], ?_⟩
  simp only [Radio.finishFrame, flagged]

section Finish

variable (g : RadioParams) (c : RadioCall) (filtered : Radio)

@[simp] theorem finishFrame_radio : (filtered.finishFrame g c).radio = filtered.radio := by
  obtain ⟨zero, ms, present, -, eq⟩ := finishFrame_eq g c filtered
  rw [eq]

@[simp] theorem finishFrame_radioCounter :
    (filtered.finishFrame g c).radioCounter = filtered.radioCounter := by
  obtain ⟨zero, ms, present, -, eq⟩ := finishFrame_eq g c filtered
  rw [eq]

@[simp] theorem finishFrame_channels : (filtered.finishFrame g c).channels = filtered.channels := by
  obtain ⟨zero, ms, present, -, eq⟩ := finishFrame_eq g c filtered
  rw [eq]

@[simp] theorem finishFrame_lastRadioUpdateMs :
    (filtered.finishFrame g c).lastRadioUpdateMs = c.now := by
  obtain ⟨zero, ms, present, -, eq⟩ := finishFrame_eq g c filtered
  rw [eq]

theorem finishFrame_present (present : filtered.rcReceiverPresent = true) :
    (filtered.finishFrame g c).rcReceiverPresent = true := by
  obtain ⟨zero, ms, still, keeps, eq⟩ := finishFrame_eq g c filtered
  rw [eq]
  exact keeps present

end Finish

@[simp] theorem setThrottlePwm_radio (g : RadioParams) (s : Radio) (pwm : UInt16) :
    (s.setThrottlePwm g pwm).radio = s.radio := rfl

@[simp] theorem setThrottlePwm_radioCounter (g : RadioParams) (s : Radio) (pwm : UInt16) :
    (s.setThrottlePwm g pwm).radioCounter = s.radioCounter := rfl

@[simp] theorem received_radio (s : Radio) (frame : Frame) :
    (s.received frame).radio = s.radio := rfl

@[simp] theorem received_radioCounter (s : Radio) (frame : Frame) :
    (s.received frame).radioCounter = s.radioCounter := rfl

@[simp] theorem received_present (s : Radio) (frame : Frame) :
    (s.received frame).rcReceiverPresent = s.rcReceiverPresent := rfl

theorem filter_present (g : RadioParams) (armed : Bool) (s : Radio) (pwm : UInt16) :
    (s.setThrottleAndFailsafe g armed pwm).1.rcReceiverPresent = s.rcReceiverPresent := by
  simp only [Radio.setThrottleAndFailsafe, Radio.setThrottlePwm]
  split_ifs <;> simp only [setFailsafeRadio_fst]

theorem readFrame_fst (g : RadioParams) (s : Radio) (c : RadioCall) (frame : Frame) :
    (s.readFrame g c frame).1 =
      ((s.received frame).setThrottleAndFailsafe g c.armed (frame g.throttle)).1.finishFrame g c := by
  have arg : ((s.received frame).channels g.throttle).radioIn.toUInt16 = frame g.throttle := by
    simp [Radio.received, Radio.setPwmAll]
  simp only [Radio.readFrame, arg]

theorem readRadio_present (g : RadioParams) {s : Radio} (c : RadioCall)
    (present : s.rcReceiverPresent = true) : (s.readRadio g c).1.rcReceiverPresent = true := by
  unfold Radio.readRadio
  cases c.frame with
  | some frame =>
    apply finishFrame_present
    rw [filter_present]
    exact present
  | none =>
    simp only [Radio.noFrame, setFailsafeRadio_fst]
    split_ifs <;> exact present

end Tm4cPilot.Copter
