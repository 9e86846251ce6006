import Tm4cPilot.Lib.Run

/-!
# The safety switch

`dev_safety_switch.c`: a press of the button that lasts long enough arms or disarms the motors.  The
end of this time is a system tick, and is compared as a number.
-/

namespace Tm4cPilot.RcOut

open UInt32 List Nat

def buttonTimerTick : ℕ := 10

def buttonPressTimeout : ℕ := 300

/-- The states of the motors. -/
inductive SafetyState where
  | init
  | disarmed
  | armed
  deriving DecidableEq, Repr

/-- The states of the button. -/
inductive ButtonState where
  | released
  | pressed
  | waitRelease
  deriving DecidableEq, Repr

/-- The variables, without those of the LED. -/
structure SafetySwitch where
  state : SafetyState
  curButtonTimeout : UInt32
  buttonState : ButtonState
  deriving DecidableEq, Repr

namespace SafetySwitch

/-- The switch at its start. -/
def boot : SafetySwitch := ⟨.init, 0, .released⟩

variable (s : SafetySwitch)

def isOff : Bool := decide (s.state = .armed)

def setReady : SafetySwitch := { s with state := .disarmed }

/-- `button_timer_entry`, with the tick and the button. -/
def buttonTimerEntry (tick : UInt32) (pressed : Bool) : SafetySwitch :=
  if s.state = .init then s
  else match s.buttonState with
    | .released =>
      if pressed then
        { s with
          curButtonTimeout := tick + UInt32.ofNat buttonPressTimeout
          buttonState := .pressed }
      else s
    | .pressed =>
      if !pressed then { s with buttonState := .released }
      else if s.curButtonTimeout ≤ tick then
        { s with
          state := if s.state = .armed then .disarmed else .armed
          buttonState := .waitRelease }
      else s
    | .waitRelease => if !pressed then { s with buttonState := .released } else s

variable {s}

theorem buttonTimerEntry_release (ready : s.state ≠ .init) (tick : UInt32) :
    s.buttonTimerEntry tick false = { s with buttonState := .released } := by
  obtain ⟨state, timeout, button⟩ := s
  rw [buttonTimerEntry, if_neg ready]
  cases button <;> rfl

theorem buttonTimerEntry_start (ready : s.state ≠ .init) (button : s.buttonState = .released)
    (tick : UInt32) :
    s.buttonTimerEntry tick true = { s with
      curButtonTimeout := tick + UInt32.ofNat buttonPressTimeout
      buttonState := .pressed } := by
  rw [buttonTimerEntry, if_neg ready, button]
  rfl

theorem buttonTimerEntry_hold (ready : s.state ≠ .init) (button : s.buttonState = .pressed)
    (tick : UInt32) :
    s.buttonTimerEntry tick true =
      if s.curButtonTimeout ≤ tick then
        { s with
          state := if s.state = .armed then .disarmed else .armed
          buttonState := .waitRelease }
      else s := by
  rw [buttonTimerEntry, if_neg ready, button]
  rfl

theorem buttonTimerEntry_wait (button : s.buttonState = .waitRelease) (tick : UInt32) :
    s.buttonTimerEntry tick true = s := by
  rw [buttonTimerEntry, button]
  exact ite_self s

end SafetySwitch

/-! ## Presses -/

/-- A sample, and whether the state was toggled. -/
structure ButtonSample where
  pressed : Bool
  toggled : Bool
  deriving DecidableEq, Repr

/-- The switch, the next tick, and the samples, the last one first. -/
structure SwitchHistory where
  tick : UInt32
  switch : SafetySwitch
  past : List ButtonSample
  deriving DecidableEq, Repr

/-- The samples of the present press. -/
def press (past : List ButtonSample) : List ButtonSample := past.takeWhile (·.pressed)

namespace SwitchHistory

/-- The switch when the board is ready. -/
def ready (tick : UInt32) : SwitchHistory := ⟨tick, SafetySwitch.boot.setReady, []⟩

def step (h : SwitchHistory) (pressed : Bool) : SwitchHistory where
  tick := h.tick + UInt32.ofNat buttonTimerTick
  switch := h.switch.buttonTimerEntry h.tick pressed
  past := ⟨pressed, decide ((h.switch.buttonTimerEntry h.tick pressed).state ≠ h.switch.state)⟩ ::
    h.past

/-- The state is toggled only at the end of a long press, and once. -/
def TogglesRightly (h : SwitchHistory) (pressed : Bool) : Prop :=
  (h.step pressed).switch.state ≠ h.switch.state →
    pressed = true ∧ buttonPressTimeout ≤ buttonTimerTick * (press h.past).length ∧
      ∀ sample ∈ press h.past, sample.toggled = false

/-- A press starts where its end is compared rightly. -/
def StartsInTime (h : SwitchHistory) (pressed : Bool) : Prop :=
  h.switch.buttonState = .released → pressed = true →
    h.tick.toNat + buttonPressTimeout < 2 ^ 32 ∨ 2 ^ 32 ≤ h.tick.toNat + buttonTimerTick
deriving Decidable

/-- The end and the sample before it are on one side of the wrap. -/
def InTime (start : ℕ) : Prop :=
  start < 2 ^ 32 ∧ (start + buttonPressTimeout < 2 ^ 32 ∨ 2 ^ 32 ≤ start + buttonTimerTick)

/-- A press that has not toggled the state yet. -/
structure Pressed (h : SwitchHistory) (start : ℕ) : Prop where
  inTime : InTime start
  some : 0 < (press h.past).length
  early : buttonTimerTick * (press h.past).length ≤ buttonPressTimeout
  tick : h.tick = UInt32.ofNat (start + buttonTimerTick * (press h.past).length)
  timeout : h.switch.curButtonTimeout = UInt32.ofNat (start + buttonPressTimeout)
  untoggled : ∀ sample ∈ press h.past, sample.toggled = false

/-- What the state of the button says about the samples. -/
structure Sound (h : SwitchHistory) : Prop where
  ready : h.switch.state ≠ .init
  released : h.switch.buttonState = .released → press h.past = []
  pressed : h.switch.buttonState = .pressed → ∃ start, h.Pressed start

variable {h : SwitchHistory}

theorem sound_ready (tick : UInt32) : (ready tick).Sound := ⟨nofun, fun _ => rfl, nofun⟩

theorem Pressed.timeout_le_iff {start : ℕ} (going : h.Pressed start) :
    h.switch.curButtonTimeout ≤ h.tick ↔
      buttonTimerTick * (press h.past).length = buttonPressTimeout := by
  obtain ⟨⟨small, wraps⟩, some, early, tick, timeout, -⟩ := going
  rw [tick, timeout, le_iff_toNat_le, toNat_ofNat', toNat_ofNat']
  simp only [buttonTimerTick, buttonPressTimeout] at *
  rcases wraps with before | after
  · rw [mod_eq_of_lt before, mod_eq_of_lt (by omega)]
    omega
  · rw [mod_eq_sub_mod (by omega), mod_eq_of_lt (by omega),
      mod_eq_sub_mod (by omega), mod_eq_of_lt (by omega)]
    omega

theorem press_cons_pressed (past : List ButtonSample) (toggled : Bool) :
    press (⟨true, toggled⟩ :: past) = ⟨true, toggled⟩ :: press past := rfl

theorem pressed_start (released : press h.past = []) (ready : h.switch.state ≠ .init)
    (button : h.switch.buttonState = .released) (starts : h.StartsInTime true) :
    (h.step true).Pressed h.tick.toNat := by
  have entry := SafetySwitch.buttonTimerEntry_start ready button h.tick
  have taken : press (h.step true).past = [⟨true, false⟩] := by
    rw [step, press_cons_pressed, released, entry]
    simp
  refine ⟨⟨h.tick.toNat_lt, starts button rfl⟩, ?_, ?_, ?_, ?_, ?_⟩
  · rw [taken]
    exact one_pos
  · rw [taken]
    decide
  · rw [taken, UInt32.ofNat_add, UInt32.ofNat_toNat]
    rfl
  · rw [step, entry, UInt32.ofNat_add, UInt32.ofNat_toNat]
  · rw [taken]
    simp

theorem Pressed.hold {start : ℕ} (going : h.Pressed start) (same : (h.step true).switch = h.switch)
    (early : buttonTimerTick * (press h.past).length ≠ buttonPressTimeout) :
    (h.step true).Pressed start := by
  obtain ⟨inTime, some, notLate, tick, timeout, untoggled⟩ := going
  have taken : press (h.step true).past = ⟨true, false⟩ :: press h.past := by
    have state := congrArg SafetySwitch.state same
    rw [step] at state ⊢
    rw [press_cons_pressed, state, decide_eq_false (by simp)]
  simp only [buttonTimerTick, buttonPressTimeout] at *
  refine ⟨inTime, ?_, ?_, ?_, same ▸ timeout, ?_⟩
  · exact succ_pos _
  · rw [taken, length_cons]
    simp only [buttonTimerTick, buttonPressTimeout]
    omega
  · rw [taken, length_cons, step, tick, ← ofNat_add]
    congr 1
  · rw [taken, forall_mem_cons]
    exact ⟨rfl, untoggled⟩

theorem Sound.step (sound : h.Sound) (pressed : Bool) :
    h.TogglesRightly pressed ∧ (h.StartsInTime pressed → (h.step pressed).Sound) := by
  obtain ⟨ready, released, going⟩ := sound
  cases pressed with
  | false =>
    have entry : (h.step false).switch = { h.switch with buttonState := .released } :=
      SafetySwitch.buttonTimerEntry_release ready h.tick
    exact ⟨absurd (by rw [entry]), fun _ => ⟨by rwa [entry], fun _ => rfl, by rw [entry]; nofun⟩⟩
  | true =>
    cases button : h.switch.buttonState with
    | released =>
      have entry : (h.step true).switch = _ :=
        SafetySwitch.buttonTimerEntry_start ready button h.tick
      exact ⟨absurd (by rw [entry]), fun starts => ⟨by rwa [entry], by rw [entry]; nofun,
        fun _ => ⟨_, pressed_start (released button) ready button starts⟩⟩⟩
    | pressed =>
      obtain ⟨start, going⟩ := going button
      have entry : (h.step true).switch = _ :=
        SafetySwitch.buttonTimerEntry_hold ready button h.tick
      by_cases late : h.switch.curButtonTimeout ≤ h.tick
      · rw [if_pos late] at entry
        refine ⟨fun _ => ⟨rfl, (going.timeout_le_iff.mp late).ge, going.untoggled⟩,
          fun _ => ⟨?_, by rw [entry]; nofun, by rw [entry]; nofun⟩⟩
        rw [entry]
        split_ifs <;> nofun
      · rw [if_neg late] at entry
        exact ⟨absurd (by rw [entry]), fun _ => ⟨by rwa [entry], by rw [entry, button]; nofun,
          fun _ => ⟨start, going.hold entry (mt going.timeout_le_iff.mpr late)⟩⟩⟩
    | waitRelease =>
      have entry : (h.step true).switch = h.switch :=
        SafetySwitch.buttonTimerEntry_wait button h.tick
      exact ⟨absurd (by rw [entry]),
        fun _ => ⟨by rwa [entry], by rw [entry, button]; nofun, by rw [entry, button]; nofun⟩⟩

/-- If no press starts just before the tick wraps, the state is toggled only at the end of a long
press, and once. -/
theorem toggles_after_long_press (tick : UInt32) (samples : List Bool)
    (inTime : Run.Along step StartsInTime (ready tick) samples) :
    Run.Along step TogglesRightly (ready tick) samples :=
  inTime.of_invariant (fun _ pressed starts sound => (sound.step pressed).2 starts)
    (fun _ pressed _ sound => (sound.step pressed).1) (sound_ready tick)

/-- A press of 31 samples, at the end of which the state is toggled. -/
theorem toggles_after_long_press_once :
    (Run.run step (ready 0) (replicate 31 true)).switch.state = .armed ∧
      Run.Along step TogglesRightly (ready 0) (replicate 31 true) :=
  ⟨by decide +kernel, toggles_after_long_press 0 _ (by decide +kernel)⟩

/-- A press 20 ticks before the tick wraps toggles the state with its second sample. -/
theorem short_press_toggles :
    (Run.run step (ready 4294967276) [true, true]).switch.state = .armed ∧
      ¬ Run.Along step TogglesRightly (ready 4294967276) [true, true] := by
  refine ⟨by decide +kernel, fun rightly => ?_⟩
  have long := (rightly.2.1 (by decide +kernel)).2.1
  revert long
  decide +kernel

end SwitchHistory

end Tm4cPilot.RcOut
