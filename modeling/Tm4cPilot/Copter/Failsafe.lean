import Tm4cPilot.Copter.Radio

/-!
# Runs of the radio failsafe

How many frames it takes to engage and to end the failsafe, and what the throttle channel holds
while it is off.
-/

namespace Tm4cPilot.Copter

open Radio RadioCall

/-- A new frame has a low throttle. -/
def RadioCall.LowFrame (g : RadioParams) (c : RadioCall) : Prop :=
  ∃ frame ∈ c.frame, g.Low (frame g.throttle)
deriving Decidable

/-- A new frame has a good throttle. -/
def RadioCall.GoodFrame (g : RadioParams) (c : RadioCall) : Prop :=
  ∃ frame ∈ c.frame, ¬ g.Low (frame g.throttle)
deriving Decidable

/-! ## The cases of a call

With the failsafe enabled and a receiver present, a call has one of six outcomes for the failsafe
flag and the counter. -/

/-- What a call does to the failsafe. -/
inductive Outcome (g : RadioParams) (s : Radio) (c : RadioCall) (next : Radio) : Prop
  /-- no frame, or a low one in failsafe: nothing changes. -/
  | idle (notGood : ¬ c.GoodFrame g) (counted : c.LowFrame g → s.radio = true)
      (radio : next.radio = s.radio) (counter : next.radioCounter = s.radioCounter)
  | late (silent : c.frame = none) (off : s.radio = false)
      (elapsed : c.rcOverrideActive = false → fsRadioTimeoutMs ≤ c.now - s.lastRadioUpdateMs)
      (radio : next.radio = true) (counter : next.radioCounter = s.radioCounter)
  | lowCounts (low : c.LowFrame g) (off : s.radio = false) (early : s.radioCounter < 2)
      (radio : next.radio = false) (counter : next.radioCounter = s.radioCounter + 1)
  | lowEngages (low : c.LowFrame g) (off : s.radio = false) (third : 2 ≤ s.radioCounter)
      (radio : next.radio = true) (counter : next.radioCounter = 3)
  | goodCounts (good : c.GoodFrame g) (more : 1 < s.radioCounter)
      (radio : next.radio = s.radio) (counter : next.radioCounter = s.radioCounter - 1)
  | goodEnds (good : c.GoodFrame g) (last : s.radioCounter ≤ 1)
      (radio : next.radio = false) (counter : next.radioCounter = 0)

variable {g : RadioParams} {c : RadioCall} {frame : Frame}

theorem goodFrame_of (h : c.frame = some frame) (good : ¬ g.Low (frame g.throttle)) :
    c.GoodFrame g := ⟨frame, h, good⟩

theorem lowFrame_of (h : c.frame = some frame) (low : g.Low (frame g.throttle)) :
    c.LowFrame g := ⟨frame, h, low⟩

theorem not_goodFrame_of (h : c.frame = some frame) (low : g.Low (frame g.throttle)) :
    ¬ c.GoodFrame g := by
  rintro ⟨other, hother, good⟩
  obtain rfl := Option.some.inj (h.symm.trans hother)
  exact good low

variable {s : Radio}

theorem readFrame_outcome (enabled : g.failsafeThrottle ≠ 0)
    (present : s.rcReceiverPresent = true) (h : c.frame = some frame) :
    Outcome g s c (s.readFrame g c frame).1 := by
  rw [readFrame_fst]
  by_cases low : g.Low (frame g.throttle)
  · cases on : s.radio with
    | true =>
      refine .idle (not_goodFrame_of h low) (fun _ => on) ?_ ?_
      all_goals rw [filter_low_on enabled low (by simp [on])]; simp
    | false =>
      by_cases third : 2 ≤ s.radioCounter
      · refine .lowEngages (lowFrame_of h low) on third ?_ ?_
        all_goals
          rw [filter_low_engages enabled low (by simp [on]) (by simp [present])
            (by simpa using third)]
          simp [fsCounter]
      · have early : s.radioCounter < 2 := Int.not_le.mp third
        refine .lowCounts (lowFrame_of h low) on early ?_ ?_
        all_goals
          rw [filter_low_counts enabled low (by simp [on]) (by simp [present])
            (by simpa using early)]
          simp [on]
  · by_cases last : s.radioCounter ≤ 1
    · refine .goodEnds (goodFrame_of h low) last ?_ ?_
      all_goals rw [filter_good_ends enabled low (by simpa using last)]; simp
    · have more : 1 < s.radioCounter := Int.not_le.mp last
      refine .goodCounts (goodFrame_of h low) more ?_ ?_
      all_goals rw [filter_good_counts enabled low (by simpa using more)]; simp

theorem noFrame_outcome (h : c.frame = none) : Outcome g s c (s.noFrame g c).1 := by
  have notGood : ¬ c.GoodFrame g := by simp [RadioCall.GoodFrame, h]
  have notLow : ¬ c.LowFrame g := by simp [RadioCall.LowFrame, h]
  unfold noFrame
  simp only [setFailsafeRadio_fst]
  split_ifs with late
  · refine .late h late.2.2.2 (fun direct => ?_) rfl rfl
    rcases late.1 with ⟨-, elapsed⟩ | ⟨override, -⟩
    · exact elapsed
    · exact absurd (direct.symm.trans override) (by decide)
  · exact .idle notGood (fun low => absurd low notLow) rfl rfl

theorem readRadio_outcome (enabled : g.failsafeThrottle ≠ 0)
    (present : s.rcReceiverPresent = true) (c : RadioCall) : Outcome g s c (s.readRadio g c).1 := by
  unfold readRadio
  cases h : c.frame with
  | some frame => exact readFrame_outcome enabled present h
  | none => exact noFrame_outcome h

theorem readRadio_lastRadioUpdateMs (g : RadioParams) (s : Radio) (c : RadioCall) :
    (s.readRadio g c).1.lastRadioUpdateMs =
      if c.frame.isSome then c.now else s.lastRadioUpdateMs := by
  unfold readRadio
  cases c.frame with
  | some frame => simp [readFrame_fst]
  | none =>
    simp only [noFrame, setFailsafeRadio_fst, Option.isSome_none, Bool.false_eq_true,
      if_false]
    split_ifs <;> rfl

/-! ## Hysteresis -/

/-- The failsafe is off and the counter zero. -/
def Radio.Clear (s : Radio) : Prop := s.radio = false ∧ s.radioCounter = 0
deriving Decidable

/-- The first state, the present one, and the calls with the states they left, the newest first. -/
structure RadioLog where
  start : Radio
  state : Radio
  history : List (RadioCall × Radio)

/-- A run without calls. -/
def RadioLog.begin (s : Radio) : RadioLog := ⟨s, s, []⟩

def RadioLog.step (g : RadioParams) (l : RadioLog) (c : RadioCall) : RadioLog :=
  { l with
    state := (l.state.readRadio g c).1
    history := (c, (l.state.readRadio g c).1) :: l.history }

/-- The time of the last frame. -/
def RadioLog.lastFrameMs (l : RadioLog) : UInt32 :=
  match l.history.find? (fun e => e.1.frame.isSome) with
  | some e => e.1.now
  | none => l.start.lastRadioUpdateMs

/-- The low frames since it was clear. -/
def RadioLog.lowSinceClear (g : RadioParams) (l : RadioLog) : ℕ :=
  (l.history.takeWhile (fun e => ¬ e.2.Clear)).countP (fun e => e.1.LowFrame g)

/-- The good frames since it came on. -/
def RadioLog.goodSinceOn (g : RadioParams) (l : RadioLog) : ℕ :=
  (l.history.takeWhile (fun e => e.2.radio)).countP (fun e => e.1.GoodFrame g)

/-- It comes on when frames are late or with the third low frame, and goes off with the third good
frame. -/
def Hysteresis (g : RadioParams) (l : RadioLog) (c : RadioCall) : Prop :=
  (l.state.radio = false → (l.state.readRadio g c).1.radio = true →
    (c.frame = none ∧ fsRadioTimeoutMs ≤ c.now - l.lastFrameMs) ∨
      (c.LowFrame g ∧ 3 ≤ l.lowSinceClear g + 1)) ∧
  (l.state.radio = true → (l.state.readRadio g c).1.radio = false →
    c.GoodFrame g ∧ 3 ≤ l.goodSinceOn g + 1)
deriving Decidable

/-- Frames are not late. -/
def InTime (l : RadioLog) (c : RadioCall) : Prop :=
  c.frame = none → l.state.radio = true ∨ c.now - l.state.lastRadioUpdateMs < fsRadioTimeoutMs
deriving Decidable

def defaultParams : RadioParams := ⟨1, 975, 2⟩

/-- A radio at one second, with all channels at their minimum. -/
def quietRadio : Radio where
  channels := fun _ => ⟨1100, 1500, 1900, false, 30, .range, 1000, 1100, 0⟩
  radio := false
  radioCounter := 0
  rcReceiverPresent := true
  newRadioFrame := false
  throttleZero := true
  lastNonzeroThrottleMs := 0
  lastRadioUpdateMs := 1000

/-- A call with all channels of the frame at `pwm`. -/
def frameCall (now : UInt32) (pwm : UInt16) : RadioCall :=
  ⟨now, some fun _ => pwm, false, false, false, false, false, now⟩

/-- A call without a frame. -/
def silentCall (now : UInt32) : RadioCall := ⟨now, none, false, false, false, false, false, now⟩

/-- Late frames leave the counter at zero, so the first good frame ends the failsafe. -/
theorem failsafe_no_hysteresis :
    ¬ Run.Along (RadioLog.step defaultParams) (Hysteresis defaultParams) (.begin quietRadio)
      [silentCall 1500, frameCall 1510 1500] := by
  decide +kernel

theorem lowSinceClear_step (g : RadioParams) (l : RadioLog) (c : RadioCall) :
    (l.step g c).lowSinceClear g = if (l.state.readRadio g c).1.Clear then 0
      else l.lowSinceClear g + if c.LowFrame g then 1 else 0 := by
  unfold RadioLog.lowSinceClear RadioLog.step
  by_cases clear : (l.state.readRadio g c).1.Clear
  · simp [clear]
  · simp [clear, List.countP_cons]

theorem goodSinceOn_step (g : RadioParams) (l : RadioLog) (c : RadioCall) :
    (l.step g c).goodSinceOn g = if (l.state.readRadio g c).1.radio = true
      then l.goodSinceOn g + (if c.GoodFrame g then 1 else 0) else 0 := by
  unfold RadioLog.goodSinceOn RadioLog.step
  by_cases on : (l.state.readRadio g c).1.radio = true
  · simp [on, List.countP_cons]
  · simp [on]

theorem lastFrameMs_step (g : RadioParams) (l : RadioLog) (c : RadioCall) :
    (l.step g c).lastFrameMs = if c.frame.isSome then c.now else l.lastFrameMs := by
  unfold RadioLog.lastFrameMs RadioLog.step
  cases some : c.frame.isSome <;> simp [some]

/-- The time of the last frame is kept, and the counter is at most the number of low frames. -/
structure RadioLog.Sound (g : RadioParams) (l : RadioLog) : Prop where
  present : l.state.rcReceiverPresent = true
  frameMs : l.state.lastRadioUpdateMs = l.lastFrameMs
  counter : 0 ≤ l.state.radioCounter
  low : l.state.radio = false → l.state.radioCounter ≤ l.lowSinceClear g

/-- The good frames have been taken off the counter. -/
structure RadioLog.Steady (g : RadioParams) (l : RadioLog) : Prop extends l.Sound g where
  left : l.state.radio = true → 1 ≤ l.state.radioCounter
  good : l.state.radio = true → 3 ≤ l.state.radioCounter + l.goodSinceOn g

theorem Radio.Clear.counter_eq (clear : s.Clear) : s.radioCounter = 0 := clear.2

variable {l : RadioLog}

theorem RadioLog.Sound.step (enabled : g.failsafeThrottle ≠ 0) (sound : l.Sound g) (c : RadioCall) :
    (l.step g c).Sound g := by
  have outcome := readRadio_outcome enabled sound.present c
  have nonneg := sound.counter
  refine ⟨readRadio_present g c sound.present, ?_, ?_, ?_⟩
  · rw [lastFrameMs_step, ← sound.frameMs]
    exact readRadio_lastRadioUpdateMs g l.state c
  · change 0 ≤ (l.state.readRadio g c).1.radioCounter
    cases outcome <;> omega
  · intro off
    change (l.state.readRadio g c).1.radio = false at off
    change (l.state.readRadio g c).1.radioCounter ≤ _
    rw [lowSinceClear_step]
    by_cases clear : (l.state.readRadio g c).1.Clear
    · rw [if_pos clear, clear.counter_eq]
      rfl
    rw [if_neg clear]
    cases outcome with
    | idle notGood counted radio counter =>
      have bound := sound.low (radio.symm.trans off)
      split_ifs <;> push_cast <;> omega
    | late silent was elapsed radio counter => exact absurd (off.symm.trans radio) (by decide)
    | lowCounts low was early radio counter =>
      have bound := sound.low was
      rw [if_pos low, counter]
      omega
    | lowEngages low was third radio counter => exact absurd (off.symm.trans radio) (by decide)
    | goodCounts good more radio counter =>
      have bound := sound.low (radio.symm.trans off)
      split_ifs <;> push_cast <;> omega
    | goodEnds good last radio counter => exact absurd ⟨radio, counter⟩ clear

theorem InTime.not_late (inTime : InTime l c) (silent : c.frame = none)
    (off : l.state.radio = false) (elapsed : fsRadioTimeoutMs ≤ c.now - l.state.lastRadioUpdateMs) :
    False := by
  rcases inTime silent with on | early
  · exact absurd (off.symm.trans on) (by decide)
  · exact absurd elapsed (UInt32.not_le.mpr early)

theorem RadioLog.Steady.step (enabled : g.failsafeThrottle ≠ 0) (steady : l.Steady g)
    (direct : c.rcOverrideActive = false) (inTime : InTime l c) : (l.step g c).Steady g := by
  have sound := steady.toSound.step enabled c
  have outcome := readRadio_outcome enabled steady.present c
  have left : (l.state.readRadio g c).1.radio = true →
      1 ≤ (l.state.readRadio g c).1.radioCounter ∧
      3 ≤ (l.state.readRadio g c).1.radioCounter + ((l.step g c).goodSinceOn g : ℤ) := by
    intro on
    rw [goodSinceOn_step, if_pos on]
    cases outcome with
    | idle notGood counted radio counter =>
      have was : l.state.radio = true := radio.symm.trans on
      have one := steady.left was
      have three := steady.good was
      omega
    | late silent was elapsed radio counter =>
      exact (inTime.not_late silent was (elapsed direct)).elim
    | lowCounts low was early radio counter => exact absurd (radio.symm.trans on) (by decide)
    | lowEngages low was third radio counter =>
      omega
    | goodCounts good more radio counter =>
      have three := steady.good (radio.symm.trans on)
      rw [if_pos good, counter]
      omega
    | goodEnds good last radio counter => exact absurd (radio.symm.trans on) (by decide)
  exact ⟨sound, fun on => (left on).1, fun on => (left on).2⟩

theorem RadioLog.Sound.engages (enabled : g.failsafeThrottle ≠ 0) (sound : l.Sound g)
    (direct : c.rcOverrideActive = false) (off : l.state.radio = false)
    (on : (l.state.readRadio g c).1.radio = true) :
    (c.frame = none ∧ fsRadioTimeoutMs ≤ c.now - l.lastFrameMs) ∨
      (c.LowFrame g ∧ 3 ≤ l.lowSinceClear g + 1) := by
  have bound := sound.low off
  cases readRadio_outcome enabled sound.present c with
  | idle notGood counted radio counter =>
    exact absurd (off.symm.trans (radio.symm.trans on)) (by decide)
  | late silent was elapsed radio counter => exact Or.inl ⟨silent, sound.frameMs ▸ elapsed direct⟩
  | lowCounts low was early radio counter => exact absurd (radio.symm.trans on) (by decide)
  | lowEngages low was third radio counter => exact Or.inr ⟨low, by omega⟩
  | goodCounts good more radio counter =>
    exact absurd (off.symm.trans (radio.symm.trans on)) (by decide)
  | goodEnds good last radio counter => exact absurd (radio.symm.trans on) (by decide)

theorem RadioLog.Steady.ends (enabled : g.failsafeThrottle ≠ 0) (steady : l.Steady g)
    (on : l.state.radio = true) (off : (l.state.readRadio g c).1.radio = false) :
    c.GoodFrame g ∧ 3 ≤ l.goodSinceOn g + 1 := by
  have three := steady.good on
  cases readRadio_outcome enabled steady.present c with
  | idle notGood counted radio counter =>
    exact absurd (off.symm.trans (radio.trans on)) (by decide)
  | late silent was elapsed radio counter => exact absurd (off.symm.trans radio) (by decide)
  | lowCounts low was early radio counter => exact absurd (was.symm.trans on) (by decide)
  | lowEngages low was third radio counter => exact absurd (off.symm.trans radio) (by decide)
  | goodCounts good more radio counter =>
    exact absurd (off.symm.trans (radio.trans on)) (by decide)
  | goodEnds good last radio counter => exact ⟨good, by omega⟩

/-- Without late frames the failsafe has hysteresis in both directions. -/
theorem failsafe_hysteresis {g : RadioParams} (enabled : g.failsafeThrottle ≠ 0) {s : Radio}
    (present : s.rcReceiverPresent = true) (clear : s.Clear) {calls : List RadioCall}
    (direct : ∀ c ∈ calls, c.rcOverrideActive = false)
    (inTime : Run.Along (RadioLog.step g) InTime (.begin s) calls) :
    Run.Along (RadioLog.step g) (Hysteresis g) (.begin s) calls := by
  have steady : (RadioLog.begin s).Steady g := by
    refine ⟨⟨present, rfl, clear.2.ge, fun _ => clear.2.le⟩, fun on => ?_, fun on => ?_⟩
    all_goals exact absurd (clear.1.symm.trans on) (by decide)
  refine (inTime.and (Run.along_of_forall direct _)).of_invariant
    (fun l c allowed steady => steady.step enabled allowed.2 allowed.1)
    (fun l c allowed steady => ⟨?_, ?_⟩) steady
  · exact steady.toSound.engages enabled allowed.2
  · exact steady.ends enabled

/-- Three low frames engage the failsafe, three good ones end it. -/
theorem failsafe_hysteresis_three_frames :
    Run.Along (RadioLog.step defaultParams) (Hysteresis defaultParams) (.begin quietRadio)
        [frameCall 1020 900, frameCall 1040 900, frameCall 1060 900, silentCall 1100,
          frameCall 1120 1500, frameCall 1140 1500, frameCall 1160 1500] ∧
      (Run.run (RadioLog.step defaultParams) (.begin quietRadio)
        [frameCall 1020 900, frameCall 1040 900, frameCall 1060 900]).state.radio = true :=
  ⟨failsafe_hysteresis (by decide) rfl ⟨rfl, rfl⟩ (by decide) (by decide +kernel), by decide +kernel⟩

/-! ## The throttle while the failsafe is off -/

/-- The radio and the last good throttle. -/
structure ThrottleLog where
  state : Radio
  lastGood : UInt16

/-- The last good throttle after a call. -/
def RadioCall.goodThrottle (g : RadioParams) (c : RadioCall) (lastGood : UInt16) : UInt16 :=
  match c.frame with
  | some frame => if g.Low (frame g.throttle) then lastGood else frame g.throttle
  | none => lastGood

def ThrottleLog.step (g : RadioParams) (l : ThrottleLog) (c : RadioCall) : ThrottleLog :=
  ⟨(l.state.readRadio g c).1, c.goodThrottle g l.lastGood⟩

/-- The channel has the last good throttle. -/
def ThrottleLog.PassesGoodOnly (g : RadioParams) (l : ThrottleLog) : Prop :=
  l.state.radio = false → (l.state.channels g.throttle).Holds l.lastGood
deriving Decidable

/-- A low frame engages the failsafe. -/
def LowEngages (g : RadioParams) (l : ThrottleLog) (c : RadioCall) : Prop :=
  c.LowFrame g → l.state.radio = true ∨ 2 ≤ l.state.radioCounter
deriving Decidable

theorem filter_holds (g : RadioParams) (armed : Bool) {pwm : UInt16}
    (holds : (s.channels g.throttle).Holds pwm) :
    ((s.setThrottleAndFailsafe g armed pwm).1.channels g.throttle).Holds pwm := by
  have set (r : Radio) : ((r.setThrottlePwm g pwm).channels g.throttle).Holds pwm := by
    rw [setThrottlePwm_throttle]
    exact RcChannel.setPwm_holds _ _
  unfold setThrottleAndFailsafe
  by_cases disabled : g.failsafeThrottle = 0
  · simpa [disabled] using set s
  by_cases low : g.Low pwm
  · by_cases passed : s.radio = true ∨ ¬ (s.rcReceiverPresent = true ∨ armed = true)
    · simpa only [disabled, low, passed, if_true, if_false] using set s
    · simp only [disabled, low, passed, if_true, if_false]
      split_ifs
      · exact set _
      · exact holds
  · simp only [disabled, low, if_false]
    exact set _

theorem readFrame_holds (g : RadioParams) (s : Radio) (c : RadioCall) (frame : Frame) :
    ((s.readFrame g c frame).1.channels g.throttle).Holds (frame g.throttle) := by
  rw [readFrame_fst, finishFrame_channels]
  exact filter_holds g c.armed (RcChannel.setPwm_holds _ _)

theorem noFrame_channels (g : RadioParams) (s : Radio) (c : RadioCall) :
    (s.noFrame g c).1.channels = s.channels := by
  simp only [noFrame, setFailsafeRadio_fst]
  split_ifs <;> rfl

theorem noFrame_off (off : (s.noFrame g c).1.radio = false) : s.radio = false := by
  simp only [noFrame, setFailsafeRadio_fst] at off
  split_ifs at off
  exact off

theorem lowFrame_radio (enabled : g.failsafeThrottle ≠ 0) (present : s.rcReceiverPresent = true)
    (low : c.LowFrame g) :
    (s.readRadio g c).1.radio = true ↔ s.radio = true ∨ 2 ≤ s.radioCounter := by
  obtain ⟨frame, hframe, lowThrottle⟩ := low
  have notGood := not_goodFrame_of hframe lowThrottle
  cases readRadio_outcome enabled present c with
  | idle _ counted radio counter =>
    have was := counted (lowFrame_of hframe lowThrottle)
    rw [radio]
    exact ⟨fun _ => Or.inl was, fun _ => was⟩
  | late silent off elapsed radio counter => exact absurd (silent.symm.trans hframe) (by simp)
  | lowCounts low off early radio counter =>
    rw [radio, off]
    simp [Int.not_le.mpr early]
  | lowEngages low off third radio counter =>
    rw [radio]
    simp [third]
  | goodCounts good more radio counter => exact absurd good notGood
  | goodEnds good last radio counter => exact absurd good notGood

/-- What a run keeps as long as low frames engage the failsafe. -/
structure ThrottleLog.Good (g : RadioParams) (l : ThrottleLog) : Prop where
  present : l.state.rcReceiverPresent = true
  good : ¬ g.Low l.lastGood
  passes : l.PassesGoodOnly g

theorem ThrottleLog.Good.passes_step_iff (enabled : g.failsafeThrottle ≠ 0) {l : ThrottleLog}
    (log : l.Good g) (c : RadioCall) : (l.step g c).PassesGoodOnly g ↔ LowEngages g l c := by
  cases h : c.frame with
  | none =>
    have eq : l.step g c = ⟨(l.state.noFrame g c).1, l.lastGood⟩ := by
      simp [ThrottleLog.step, readRadio, goodThrottle, h]
    rw [eq]
    refine ⟨fun _ low => absurd low (by simp [RadioCall.LowFrame, h]), fun _ off => ?_⟩
    simp only [noFrame_channels]
    exact log.passes (noFrame_off off)
  | some frame =>
    have holds : ((l.state.readRadio g c).1.channels g.throttle).Holds (frame g.throttle) := by
      simpa only [readRadio, h] using readFrame_holds g l.state c frame
    by_cases low : g.Low (frame g.throttle)
    · have eq : l.step g c = ⟨(l.state.readRadio g c).1, l.lastGood⟩ := by
        simp [ThrottleLog.step, goodThrottle, h, low]
      have engages := lowFrame_radio enabled log.present (lowFrame_of h low)
      rw [eq]
      constructor
      · intro passes _
        rw [← engages]
        by_contra off
        -- the channel holds the low throttle of this frame
        have same := holds.unique (passes (Bool.not_eq_true _ ▸ off))
        exact log.good (same ▸ low)
      · intro lowEngages off
        have on := engages.mpr (lowEngages (lowFrame_of h low))
        exact absurd (off.symm.trans on) (by decide)
    · have eq : l.step g c = ⟨(l.state.readRadio g c).1, frame g.throttle⟩ := by
        simp [ThrottleLog.step, goodThrottle, h, low]
      rw [eq]
      refine ⟨fun _ isLow => ?_, fun _ _ => holds⟩
      exact absurd (goodFrame_of h low) (by
        obtain ⟨other, hother, lowOther⟩ := isLow
        exact not_goodFrame_of hother lowOther)

theorem ThrottleLog.Good.step (enabled : g.failsafeThrottle ≠ 0) {l : ThrottleLog}
    (log : l.Good g) (engages : LowEngages g l c) : (l.step g c).Good g := by
  refine ⟨readRadio_present g c log.present, ?_, (log.passes_step_iff enabled c).mpr engages⟩
  simp only [ThrottleLog.step, goodThrottle]
  cases c.frame with
  | none => exact log.good
  | some frame =>
    simp only
    split_ifs with low
    · exact log.good
    · exact low

/-- While the failsafe is off the channel holds the last good throttle, exactly if every low frame
comes in failsafe or engages it. -/
theorem passes_good_only_iff {g : RadioParams} (enabled : g.failsafeThrottle ≠ 0) {s : Radio}
    (present : s.rcReceiverPresent = true) {first : RadioCall} {frame : Frame}
    (hframe : first.frame = some frame) (good : ¬ g.Low (frame g.throttle))
    (calls : List RadioCall) :
    Run.Along (ThrottleLog.step g) (fun l c => (l.step g c).PassesGoodOnly g)
        ⟨(s.readRadio g first).1, frame g.throttle⟩ calls ↔
      Run.Along (ThrottleLog.step g) (LowEngages g)
        ⟨(s.readRadio g first).1, frame g.throttle⟩ calls := by
  refine Run.along_congr (I := ThrottleLog.Good g)
    (fun l c log => log.passes_step_iff enabled c) (fun l c log engages => log.step enabled engages)
    ⟨readRadio_present g first present, good, fun _ => ?_⟩
  simpa only [Radio.readRadio, hframe] using readFrame_holds g s first frame

/-- A low frame after a good one reaches the throttle channel. -/
theorem low_throttle_passed :
    ¬ Run.Along (ThrottleLog.step defaultParams)
      (fun l c => (l.step defaultParams c).PassesGoodOnly defaultParams)
      ⟨(quietRadio.readRadio defaultParams (frameCall 1020 1500)).1, 1500⟩ [frameCall 1040 900] := by
  decide +kernel

/-- Good frames, and a low frame once late frames have engaged the failsafe. -/
theorem passes_good_only_late :
    Run.Along (ThrottleLog.step defaultParams)
      (fun l c => (l.step defaultParams c).PassesGoodOnly defaultParams)
      ⟨(quietRadio.readRadio defaultParams (frameCall 1020 1500)).1, 1500⟩
      [frameCall 1040 1600, silentCall 1600, frameCall 1620 900, frameCall 1640 1700] :=
  (@passes_good_only_iff defaultParams (by decide) quietRadio rfl (frameCall 1020 1500)
    (fun _ => 1500) rfl (by decide) _).mpr (by decide +kernel)

end Tm4cPilot.Copter
