import Tm4cPilot.RcOut.SafetySwitch

/-!
# Locking the motor outputs

`dev_rc_out.c` with `dev_safety_switch.c`: a timer locks the pins while the safety switch is not
armed or there is an error.  The flag starts as if they were not locked.
-/

namespace Tm4cPilot.RcOut

open Nat

def checkLockPeriod : ℕ := 10

/-- What a pin does. -/
inductive PinMode where
  | input
  | low
  | pwm
  deriving DecidableEq, Repr

/-- The output pins and `is_locked`. -/
structure Outputs where
  isLocked : Bool
  pin : Fin 4 → PinMode

namespace Outputs

variable (o : Outputs)

def pwmLock (i : Fin 4) : Outputs := { o with pin := Function.update o.pin i .low }

def pwmUnlock (i : Fin 4) : Outputs := { o with pin := Function.update o.pin i .pwm }

def pwmLockAll : Outputs := (List.finRange 4).foldl pwmLock o

def pwmUnlockAll : Outputs := (List.finRange 4).foldl pwmUnlock o

/-- The pins after `dev_rc_out_init`, which locks each of them. -/
def devInit : Outputs := (List.finRange 4).foldl pwmLock ⟨false, fun _ => .input⟩

def checkLock (isError : Bool) (switch : SafetySwitch) : Bool := isError || !switch.isOff

def checkTimerEntry (isError : Bool) (switch : SafetySwitch) : Outputs :=
  let curLock := checkLock isError switch
  if curLock = o.isLocked then o
  else
    let o := { o with isLocked := curLock }
    if o.isLocked then o.pwmLockAll else o.pwmUnlockAll

/-- All pins are in a mode. -/
def All (mode : PinMode) : Prop := ∀ i, o.pin i = mode

theorem all_devInit : devInit.All .low := by
  intro i
  fin_cases i <;> rfl

theorem all_checkTimerEntry {o : Outputs} (follows : o.All (if o.isLocked then .low else .pwm))
    (isError : Bool) (switch : SafetySwitch) :
    (o.checkTimerEntry isError switch).isLocked = checkLock isError switch ∧
      (o.checkTimerEntry isError switch).All
        (if checkLock isError switch then .low else .pwm) := by
  rw [checkTimerEntry]
  cases checkLock isError switch <;> cases locked : o.isLocked
  · exact ⟨locked, fun i => by simpa [locked] using follows i⟩
  · refine ⟨rfl, fun i => ?_⟩
    fin_cases i <;> rfl
  · refine ⟨rfl, fun i => ?_⟩
    fin_cases i <;> rfl
  · exact ⟨locked, fun i => by simpa [locked] using follows i⟩

theorem all_checkTimerEntry_first {o : Outputs} (open' : o.isLocked = false) {isError : Bool}
    {switch : SafetySwitch} (locks : checkLock isError switch = true) :
    (o.checkTimerEntry isError switch).isLocked = true ∧
      (o.checkTimerEntry isError switch).All .low := by
  simp only [checkTimerEntry, locks, open']
  refine ⟨rfl, fun i => ?_⟩
  fin_cases i <;> rfl

end Outputs

/-! ## The board -/

/-- The timers, the switch, the pins, and what the last check found. -/
structure Board where
  tick : UInt32
  checkIn : ℕ
  buttonIn : ℕ
  switch : SafetySwitch
  outputs : Outputs
  lastCheck : Option Bool

/-- A tick, with the button, `rt_hw_is_error` and the order of the timers, or
`dev_safety_switch_set_ready`. -/
inductive BoardEvent where
  | tick (pressed isError buttonFirst : Bool)
  | setReady
  deriving DecidableEq, Repr

def BoardEvent.isTick : BoardEvent → Bool
  | .tick _ _ _ => true
  | .setReady => false

namespace Board

/-- The board at its start. -/
def boot (tick : UInt32) (check : Fin checkLockPeriod) (button : Fin buttonTimerTick) : Board where
  tick
  checkIn := check + 1
  buttonIn := button + 1
  switch := .boot
  outputs := .devInit
  lastCheck := none

variable (b : Board)

/-- The timer of `check_timer_entry`, if its time has come. -/
def check (isError : Bool) : Board :=
  if b.checkIn = 0 then
    { b with
      checkIn := checkLockPeriod
      outputs := b.outputs.checkTimerEntry isError b.switch
      lastCheck := some (!isError && decide (b.switch.state = .armed)) }
  else b

/-- The timer of `button_timer_entry`, if its time has come. -/
def button (pressed : Bool) : Board :=
  if b.buttonIn = 0 then
    { b with
      buttonIn := buttonTimerTick
      switch := b.switch.buttonTimerEntry b.tick pressed }
  else b

def step : BoardEvent → Board
  | .tick pressed isError buttonFirst =>
    let b := { b with tick := b.tick + 1, checkIn := b.checkIn - 1, buttonIn := b.buttonIn - 1 }
    if buttonFirst then (b.button pressed).check isError else (b.check isError).button pressed
  | .setReady => { b with switch := b.switch.setReady }

/-- The switch that a check sees; the button may come first. -/
def switchAtCheck (pressed buttonFirst : Bool) : SafetySwitch :=
  if buttonFirst ∧ b.buttonIn ≤ 1 then b.switch.buttonTimerEntry (b.tick + 1) pressed else b.switch

/-- The switch is not armed before the first check. -/
structure Unchecked (b : Board) : Prop where
  isLocked : b.outputs.isLocked = false
  low : b.outputs.All .low
  check_le : b.checkIn ≤ checkLockPeriod
  state : b.switch.state ≠ .armed
  samples : b.switch.buttonState = .released ∨ b.checkIn < b.buttonIn

/-- The flag and the pins are as the last check has found. -/
structure Checked (b : Board) (allowed : Bool) : Prop where
  isLocked : b.outputs.isLocked = !allowed
  pins : b.outputs.All (if allowed then .pwm else .low)

/-- The pins are as the last check asks. -/
def Follows : Prop :=
  match b.lastCheck with
  | none => b.Unchecked
  | some allowed => b.Checked allowed

variable {b}

/-! What the timers change. -/

theorem checkIn_button (pressed : Bool) : (b.button pressed).checkIn = b.checkIn := by
  rw [button]
  split_ifs <;> rfl

theorem lastCheck_button (pressed : Bool) : (b.button pressed).lastCheck = b.lastCheck := by
  rw [button]
  split_ifs <;> rfl

theorem buttonIn_check (isError : Bool) : (b.check isError).buttonIn = b.buttonIn := by
  rw [check]
  split_ifs <;> rfl

theorem buttonIn_button_pos (pressed : Bool) : 0 < (b.button pressed).buttonIn := by
  rw [button]
  split_ifs with due
  · exact succ_pos _
  · exact pos_of_ne_zero due

theorem checkIn_check_pos (isError : Bool) : 0 < (b.check isError).checkIn := by
  rw [check]
  split_ifs with due
  · exact succ_pos _
  · exact pos_of_ne_zero due

theorem check_eq_of_unchecked {isError : Bool} (unchecked : (b.check isError).lastCheck = none) :
    b.check isError = b := by
  rw [check] at unchecked ⊢
  split_ifs at unchecked ⊢
  rfl

theorem checkLock_eq (isError : Bool) (switch : SafetySwitch) :
    Outputs.checkLock isError switch = !(!isError && decide (switch.state = .armed)) := by
  cases isError <;> simp [Outputs.checkLock, SafetySwitch.isOff]

theorem Follows.check (follows : b.Follows) (isError : Bool) : (b.check isError).Follows := by
  rw [Board.check]
  split_ifs with due
  · rw [Follows] at follows ⊢
    cases last : b.lastCheck with
    | none =>
      rw [last] at follows
      have idle : (!isError && decide (b.switch.state = .armed)) = false := by
        rw [decide_eq_false follows.state, Bool.and_false]
      have locks : Outputs.checkLock isError b.switch = true := by rw [checkLock_eq, idle]; rfl
      obtain ⟨locked, low⟩ := Outputs.all_checkTimerEntry_first follows.isLocked locks
      rw [idle]
      exact ⟨locked, low⟩
    | some allowed =>
      rw [last] at follows
      have pins : b.outputs.All (if b.outputs.isLocked then .low else .pwm) := by
        rw [follows.isLocked]
        cases allowed <;> exact follows.pins
      obtain ⟨locked, all⟩ := Outputs.all_checkTimerEntry pins isError b.switch
      rw [checkLock_eq] at locked all
      refine ⟨locked, ?_⟩
      cases allow : !isError && decide (b.switch.state = .armed) <;> rw [allow] at all <;> exact all
  · exact follows

theorem Unchecked.button (unchecked : b.Unchecked) (pressed : Bool)
    (soon : b.checkIn < buttonTimerTick) : (b.button pressed).Unchecked := by
  rw [Board.button]
  split_ifs with due
  · -- the button has not been sampled before
    have released := unchecked.samples.resolve_right (by omega)
    refine ⟨unchecked.isLocked, unchecked.low, unchecked.check_le, ?_, .inr soon⟩
    rw [SafetySwitch.buttonTimerEntry, released]
    split_ifs <;> exact unchecked.state
  · exact unchecked

theorem Follows.button (follows : b.Follows) (pressed : Bool)
    (soon : b.lastCheck = none → b.checkIn < buttonTimerTick) : (b.button pressed).Follows := by
  have same : (b.button pressed).lastCheck = b.lastCheck ∧
      (b.button pressed).outputs = b.outputs := by
    rw [Board.button]
    split_ifs <;> exact ⟨rfl, rfl⟩
  rw [Follows] at follows ⊢
  rw [same.1]
  cases last : b.lastCheck with
  | none =>
    rw [last] at follows
    exact follows.button pressed (soon last)
  | some allowed =>
    rw [last] at follows
    exact ⟨same.2 ▸ follows.isLocked, same.2 ▸ follows.pins⟩

theorem Follows.pin_eq_pwm_iff (follows : b.Follows) {allowed : Bool}
    (last : b.lastCheck = some allowed) (i : Fin 4) :
    b.outputs.pin i = .pwm ↔ allowed = true := by
  rw [Follows, last] at follows
  rw [follows.pins i]
  cases allowed <;> simp

/-- The timers are started, and the pins follow the last check. -/
structure Sound (b : Board) : Prop where
  follows : b.Follows
  checkIn_pos : 0 < b.checkIn
  buttonIn_pos : 0 < b.buttonIn

theorem sound_boot (tick : UInt32) (check : Fin checkLockPeriod) (button : Fin buttonTimerTick) :
    (boot tick check button).Sound :=
  ⟨⟨rfl, Outputs.all_devInit, check.isLt, nofun, .inl rfl⟩, succ_pos _, succ_pos _⟩

theorem Sound.pass (sound : b.Sound) :
    Follows { b with tick := b.tick + 1, checkIn := b.checkIn - 1, buttonIn := b.buttonIn - 1 } ∧
      (b.lastCheck = none → b.checkIn - 1 < buttonTimerTick) := by
  obtain ⟨follows, check_pos, button_pos⟩ := sound
  rw [Follows] at follows ⊢
  cases last : b.lastCheck with
  | none =>
    rw [last] at follows
    obtain ⟨isLocked, low, check_le, state, samples⟩ := follows
    rw [checkLockPeriod] at check_le
    refine ⟨⟨isLocked, low, ?_, state, samples.imp_right fun _ => ?_⟩, fun _ => ?_⟩
    · dsimp only [checkLockPeriod]
      omega
    · dsimp only
      omega
    · rw [buttonTimerTick]
      omega
  | some allowed =>
    rw [last] at follows
    exact ⟨⟨follows.isLocked, follows.pins⟩, fun absent => absurd absent (by simp)⟩

theorem Sound.step (sound : b.Sound) (e : BoardEvent) : (b.step e).Sound := by
  cases e with
  | setReady =>
    refine ⟨?_, sound.checkIn_pos, sound.buttonIn_pos⟩
    have follows := sound.follows
    rw [Follows] at follows ⊢
    dsimp only [Board.step]
    cases last : b.lastCheck with
    | none =>
      rw [last] at follows
      exact ⟨follows.isLocked, follows.low, follows.check_le, nofun, follows.samples⟩
    | some allowed =>
      rw [last] at follows
      exact ⟨follows.isLocked, follows.pins⟩
  | tick pressed isError buttonFirst =>
    obtain ⟨follows, soon⟩ := sound.pass
    simp only [Board.step]
    split_ifs
    · refine ⟨(follows.button pressed soon).check isError, checkIn_check_pos isError, ?_⟩
      rw [buttonIn_check]
      exact buttonIn_button_pos pressed
    · refine ⟨(follows.check isError).button pressed fun unchecked => ?_, ?_,
        buttonIn_button_pos pressed⟩
      · have same := check_eq_of_unchecked unchecked
        rw [same] at unchecked ⊢
        exact soon unchecked
      · rw [checkIn_button]
        exact checkIn_check_pos isError

/-! When the check is made. -/

theorem checkIn_tick (pressed isError buttonFirst : Bool) :
    (b.step (.tick pressed isError buttonFirst)).checkIn =
      if b.checkIn ≤ 1 then checkLockPeriod else b.checkIn - 1 := by
  have due : b.checkIn - 1 = 0 ↔ b.checkIn ≤ 1 := Nat.sub_eq_zero_iff_le
  rw [step]
  cases buttonFirst <;> simp only [Bool.false_eq_true, if_true, if_false, checkIn_button, check, due]
  all_goals split_ifs <;> simp only [checkIn_button]

theorem lastCheck_tick (pressed isError buttonFirst : Bool) (due : b.checkIn = 1) :
    (b.step (.tick pressed isError buttonFirst)).lastCheck =
      some (!isError && decide ((b.switchAtCheck pressed buttonFirst).state = .armed)) := by
  have sampled : b.buttonIn - 1 = 0 ↔ b.buttonIn ≤ 1 := Nat.sub_eq_zero_iff_le
  rw [step, switchAtCheck]
  cases buttonFirst with
  | false =>
    simp only [Bool.false_eq_true, if_false, false_and, lastCheck_button]
    rw [check, if_pos (by simp [due])]
  | true =>
    simp only [if_true, true_and]
    rw [check, if_pos (by rw [checkIn_button]; simp [due]), button]
    simp only [sampled]
    split_ifs <;> rfl

theorem checkIn_run (tick : UInt32) (check : Fin checkLockPeriod) (button : Fin buttonTimerTick)
    (events : List BoardEvent) :
    let b := Run.run step (boot tick check button) events
    0 < b.checkIn ∧ b.checkIn ≤ checkLockPeriod ∧
      (events.countP BoardEvent.isTick + b.checkIn) % checkLockPeriod =
        (check + 1) % checkLockPeriod := by
  have h := check.isLt
  induction events using List.reverseRecOn with
  | nil => exact ⟨succ_pos _, h, by rw [List.countP_nil, Nat.zero_add]; rfl⟩
  | append_singleton events e ih =>
    rw [Run.run_append, Run.run_cons, Run.run_nil, List.countP_append, List.countP_singleton]
    cases e with
    | setReady => simpa [step, BoardEvent.isTick] using ih
    | tick pressed isError buttonFirst =>
      simp only [checkIn_tick, BoardEvent.isTick, checkLockPeriod, if_true] at ih ⊢
      split_ifs <;> omega

/-- The check is made every ten ticks. After each one the pins are in PWM mode exactly if it found
no error and the switch armed, and before the first they are locked. -/
theorem outputs_follow_switch (tick : UInt32) (check : Fin checkLockPeriod)
    (button : Fin buttonTimerTick) (events : List BoardEvent) (i : Fin 4) :
    let b := Run.run step (boot tick check button) events
    (b.lastCheck = none → b.outputs.pin i = .low) ∧
      (∀ allowed, b.lastCheck = some allowed → (b.outputs.pin i = .pwm ↔ allowed = true)) ∧
      ∀ pressed isError buttonFirst, events.countP BoardEvent.isTick % checkLockPeriod = check →
        ((b.step (.tick pressed isError buttonFirst)).outputs.pin i = .pwm ↔
          isError = false ∧ (b.switchAtCheck pressed buttonFirst).state = .armed) := by
  intro b
  have sound : b.Sound :=
    Run.run_invariant (I := Sound) (fun b e sound => sound.step e)
      (sound_boot tick check button) events
  refine ⟨fun last => ?_, fun allowed last => sound.follows.pin_eq_pwm_iff last i,
    fun pressed isError buttonFirst here => ?_⟩
  · have follows := sound.follows
    rw [Follows, last] at follows
    exact follows.low i
  · have due : b.checkIn = 1 := by
      obtain ⟨pos, le, same⟩ : 0 < b.checkIn ∧ b.checkIn ≤ checkLockPeriod ∧ _ :=
        checkIn_run tick check button events
      rw [show Run.run step (boot tick check button) events = b from rfl] at same
      have h := check.isLt
      simp only [checkLockPeriod] at here le same h
      omega
    have last := b.lastCheck_tick pressed isError buttonFirst due
    rw [(sound.step _).follows.pin_eq_pwm_iff last i]
    simp

end Board

end Tm4cPilot.RcOut
