import Tm4cPilot.Lib.Run

/-!
# Arming and disarming by stick gestures

`Copter::arm_motors_check` runs at 10 Hz.  It counts the calls that find the throttle down and the
yaw stick held full right or left, and arms or disarms when the counter reaches its delay.
-/

namespace Tm4cPilot.Copter

open List

/-- `control_mode_t`. -/
inductive ControlMode
  | stabilize | acro | altHold | auto | guided | loiter | rtl | circle | land | drift | sport | flip
  | autotune | poshold | brake | throw | avoidAdsb | guidedNogps
  deriving DecidableEq, Repr

def modeHasManualThrottle : ControlMode → Bool
  | .acro | .stabilize => true
  | _ => false

/-! ## The functions of `motors.cpp` -/

/-- `ARM_DELAY`, in calls. -/
def armDelay : ℕ := 20

/-- `DISARM_DELAY`, in calls. -/
def disarmDelay : ℕ := 20

/-- `AUTO_TRIM_DELAY`, in calls. -/
def autoTrimDelay : ℕ := 100

/-- What `arm_motors_check` reads besides its own state. -/
structure Sticks where
  throttle : Int16
  yaw : Int16
  mode : ControlMode
  landComplete : Bool
  checksPass : Bool
  now : UInt32
  deriving DecidableEq, Repr

/-- The static counter, and what the gestures act on. -/
structure Arming where
  armingCounter : ℕ
  armed : Bool
  autoTrimCounter : ℕ
  autoDisarmBegin : UInt32
  deriving DecidableEq, Repr

/-- The calls it makes. -/
inductive MotorsCall
  | initArmMotors
  | initDisarmMotors
  deriving DecidableEq, Repr

/-- `init_arm_motors`: are the motors armed then? -/
def initArmMotors (s : Arming) (checksPass : Bool) : Bool × Arming :=
  if s.armed then (true, s)
  else if checksPass then (true, { s with armed := true })
  else (false, s)

def initDisarmMotors (s : Arming) : Arming := { s with armed := false }

/-- The branch of a stick full right. -/
def fullRight (s : Arming) (i : Sticks) : Arming × List MotorsCall :=
  let counted := if s.armingCounter ≤ autoTrimDelay
    then { s with armingCounter := s.armingCounter + 1 } else s
  let (tried, calls) :=
    if counted.armingCounter = armDelay ∧ counted.armed = false then
      let (ok, next) := initArmMotors counted i.checksPass
      (if ok then next else { next with armingCounter := 0 }, [MotorsCall.initArmMotors])
    else (counted, [])
  if tried.armingCounter = autoTrimDelay ∧ tried.armed = true ∧ i.mode = .stabilize then
    ({ tried with autoTrimCounter := 250, autoDisarmBegin := i.now }, calls)
  else (tried, calls)

/-- The branch of a stick full left. -/
def fullLeft (s : Arming) (i : Sticks) : Arming × List MotorsCall :=
  if modeHasManualThrottle i.mode = false ∧ i.landComplete = false then
    ({ s with armingCounter := 0 }, [])
  else
    let counted := if s.armingCounter ≤ disarmDelay
      then { s with armingCounter := s.armingCounter + 1 } else s
    if counted.armingCounter = disarmDelay ∧ counted.armed = true then
      (initDisarmMotors counted, [.initDisarmMotors])
    else (counted, [])

def armMotorsCheck (s : Arming) (i : Sticks) : Arming × List MotorsCall :=
  if 0 < i.throttle then ({ s with armingCounter := 0 }, [])
  else if 4000 < i.yaw then fullRight s i
  else if i.yaw < -4000 then fullLeft s i
  else ({ s with armingCounter := 0 }, [])

inductive Side
  | right
  | left
  deriving DecidableEq, Repr

instance : Fintype Side := ⟨{.right, .left}, fun side => by cases side <;> decide⟩

/-- The sticks show the gesture. -/
def Side.ShownBy : Side → Sticks → Prop
  | .right, i => i.throttle ≤ 0 ∧ 4000 < i.yaw
  | .left, i => i.throttle ≤ 0 ∧ i.yaw < -4000

instance (side : Side) (i : Sticks) : Decidable (side.ShownBy i) := by
  cases side <;> unfold Side.ShownBy <;> infer_instance

/-- The gesture was shown in the last `n` calls. -/
def HeldFor (n : ℕ) (side : Side) (calls : List Sticks) : Prop :=
  n ≤ calls.length ∧ ∀ i ∈ calls.take n, side.ShownBy i
deriving Decidable

theorem heldFor_zero (side : Side) (calls : List Sticks) : HeldFor 0 side calls :=
  ⟨Nat.zero_le _, by simp⟩

variable {n : ℕ} {side : Side} {calls : List Sticks}

theorem HeldFor.mono {m : ℕ} (h : HeldFor n side calls) (hm : m ≤ n) : HeldFor m side calls :=
  ⟨hm.trans h.1, fun i hi => h.2 i (take_subset_take_left calls hm hi)⟩

variable {i : Sticks}

theorem HeldFor.cons (h : HeldFor n side calls) (hi : side.ShownBy i) :
    HeldFor (n + 1) side (i :: calls) := by
  refine ⟨Nat.succ_le_succ h.1, fun j hj => ?_⟩
  rw [take_succ_cons, mem_cons] at hj
  rcases hj with rfl | hj
  · exact hi
  · exact h.2 j hj

theorem HeldFor.head (h : HeldFor n side calls) (hn : n ≠ 0) :
    ∃ last ∈ calls.head?, side.ShownBy last := by
  obtain ⟨m, rfl⟩ := Nat.exists_eq_succ_of_ne_zero hn
  cases calls with
  | nil => exact absurd h.1 (by simp)
  | cons last calls => exact ⟨last, rfl, h.2 last (by simp)⟩

/-! ## What one call does -/

theorem initArmMotors_counter (s : Arming) (checksPass : Bool) :
    (initArmMotors s checksPass).2.armingCounter = s.armingCounter := by
  unfold initArmMotors
  split_ifs <;> rfl

theorem fullRight_counter (s : Arming) (i : Sticks) :
    (fullRight s i).1.armingCounter ≤ s.armingCounter + 1 := by
  have arm := initArmMotors_counter
  unfold fullRight
  grind

theorem fullLeft_counter (s : Arming) (i : Sticks) :
    (fullLeft s i).1.armingCounter ≤ s.armingCounter + 1 := by
  unfold fullLeft initDisarmMotors
  grind

theorem armMotorsCheck_counter (s : Arming) (i : Sticks) :
    (armMotorsCheck s i).1.armingCounter = 0 ∨
      ∃ side : Side, side.ShownBy i ∧
        (armMotorsCheck s i).1.armingCounter ≤ s.armingCounter + 1 := by
  unfold armMotorsCheck
  by_cases high : 0 < i.throttle
  · exact Or.inl (by simp [high])
  have down : i.throttle ≤ 0 := Int16.not_lt.mp high
  by_cases right : 4000 < i.yaw
  · exact Or.inr ⟨.right, ⟨down, right⟩, by simpa [high, right] using fullRight_counter s i⟩
  by_cases left : i.yaw < -4000
  · exact Or.inr ⟨.left, ⟨down, left⟩, by simpa [high, right, left] using fullLeft_counter s i⟩
  exact Or.inl (by simp [high, right, left])

variable {s : Arming}

theorem fullRight_calls {call : MotorsCall} (h : call ∈ (fullRight s i).2) :
    call = .initArmMotors ∧ s.armingCounter + 1 = armDelay := by
  unfold fullRight at h
  grind [autoTrimDelay, armDelay]

theorem fullLeft_calls {call : MotorsCall} (h : call ∈ (fullLeft s i).2) :
    call = .initDisarmMotors ∧ s.armingCounter + 1 = disarmDelay := by
  unfold fullLeft at h
  grind [disarmDelay]

theorem initArmMotors_called (h : .initArmMotors ∈ (armMotorsCheck s i).2) :
    Side.right.ShownBy i ∧ s.armingCounter + 1 = armDelay := by
  unfold armMotorsCheck at h
  split_ifs at h with high right left
  · cases h
  · exact ⟨⟨Int16.not_lt.mp high, right⟩, (fullRight_calls h).2⟩
  · exact absurd (fullLeft_calls h).1 (by decide)
  · cases h

theorem initDisarmMotors_called (h : .initDisarmMotors ∈ (armMotorsCheck s i).2) :
    Side.left.ShownBy i ∧ s.armingCounter + 1 = disarmDelay := by
  unfold armMotorsCheck at h
  split_ifs at h with high right left
  · cases h
  · exact absurd (fullRight_calls h).1 (by decide)
  · exact ⟨⟨Int16.not_lt.mp high, left⟩, (fullLeft_calls h).2⟩
  · cases h

/-! ## Runs

Between the calls other code may arm or disarm the motors.  `Pilot` keeps the calls made so far
beside the state the calls left. -/

/-- A call, or a change by other code. -/
inductive ArmingEvent
  | check (i : Sticks)
  | setArmed (armed : Bool)
  deriving DecidableEq, Repr

/-- The state, and the calls so far, the newest first. -/
structure Pilot where
  state : Arming
  calls : List Sticks
  deriving DecidableEq, Repr

/-- The state at boot. -/
def Pilot.boot : Pilot := ⟨⟨0, false, 0, 0⟩, []⟩

def Pilot.step (p : Pilot) : ArmingEvent → Pilot
  | .check i => ⟨(armMotorsCheck p.state i).1, i :: p.calls⟩
  | .setArmed armed => { p with state := { p.state with armed := armed } }

/-- A call that arms or disarms ends a gesture held for its delay. -/
def GesturesHeld (p : Pilot) : ArmingEvent → Prop
  | .check i =>
    (.initArmMotors ∈ (armMotorsCheck p.state i).2 → HeldFor armDelay .right (i :: p.calls)) ∧
    (.initDisarmMotors ∈ (armMotorsCheck p.state i).2 → HeldFor disarmDelay .left (i :: p.calls))
  | .setArmed _ => True

/-- The gesture changes only while the counter is zero. -/
def TurnsAtRest (p : Pilot) : ArmingEvent → Prop
  | .check i => ∀ last ∈ p.calls.head?, ∀ side other : Side, side ≠ other → side.ShownBy i →
      other.ShownBy last → p.state.armingCounter = 0
  | .setArmed _ => True

instance : DecidableRel GesturesHeld
  | p, .check i => by unfold GesturesHeld; infer_instance
  | _, .setArmed _ => .isTrue trivial

instance : DecidableRel TurnsAtRest
  | p, .check i => by unfold TurnsAtRest; infer_instance
  | _, .setArmed _ => .isTrue trivial

/-- Landed in stabilize, with the yaw stick at `yaw`. -/
def landedSticks (yaw : Int16) : ArmingEvent := .check ⟨0, yaw, .stabilize, true, true, 0⟩

/-- Nineteen calls full left and one full right arm, nineteen full right and one full left disarm.
-/
theorem gestures_not_held :
    ¬ Run.Along Pilot.step GesturesHeld Pilot.boot
        (replicate 19 (landedSticks (-4500)) ++ [landedSticks 4500]) ∧
      ¬ Run.Along Pilot.step GesturesHeld Pilot.boot
        (.setArmed true :: replicate 19 (landedSticks 4500) ++ [landedSticks (-4500)]) := by
  decide +kernel

/-- The counter is the length of a gesture. -/
def Pilot.Counts (p : Pilot) : Prop := ∃ side, HeldFor p.state.armingCounter side p.calls

variable {p : Pilot}

theorem Pilot.Counts.same_side (counts : p.Counts) (rest : TurnsAtRest p (.check i))
    (shown : side.ShownBy i) : HeldFor p.state.armingCounter side p.calls := by
  obtain ⟨other, held⟩ := counts
  by_cases same : side = other
  · exact same ▸ held
  by_cases zero : p.state.armingCounter = 0
  · rw [zero]
    exact heldFor_zero side p.calls
  · obtain ⟨last, hlast, shownLast⟩ := held.head zero
    exact absurd (rest last hlast side other same shown shownLast) zero

theorem Pilot.Counts.step {e : ArmingEvent} (rest : TurnsAtRest p e) (counts : p.Counts) :
    (p.step e).Counts := by
  cases e with
  | setArmed armed => exact counts
  | check i =>
    rcases armMotorsCheck_counter p.state i with zero | ⟨side, shown, bound⟩
    · refine ⟨.right, ?_⟩
      simp only [Pilot.step, zero]
      exact heldFor_zero _ _
    · exact ⟨side, ((counts.same_side rest shown).cons shown).mono bound⟩

theorem Pilot.Counts.gesturesHeld {e : ArmingEvent} (rest : TurnsAtRest p e) (counts : p.Counts) :
    GesturesHeld p e := by
  cases e with
  | setArmed armed => trivial
  | check i =>
    constructor
    · intro called
      obtain ⟨shown, count⟩ := initArmMotors_called called
      exact count ▸ (counts.same_side rest shown).cons shown
    · intro called
      obtain ⟨shown, count⟩ := initDisarmMotors_called called
      exact count ▸ (counts.same_side rest shown).cons shown

/-- If the stick turns at rest, the motors are armed and disarmed only by gestures held for their
delay. -/
theorem gestures_held {events : List ArmingEvent}
    (rest : Run.Along Pilot.step TurnsAtRest Pilot.boot events) :
    Run.Along Pilot.step GesturesHeld Pilot.boot events :=
  rest.of_invariant (fun _ _ allowed counts => Pilot.Counts.step allowed counts)
    (fun _ _ allowed counts => Pilot.Counts.gesturesHeld allowed counts)
    ⟨.right, heldFor_zero _ _⟩

/-- A pilot who arms, centres the stick and disarms. -/
theorem gestures_held_arm_disarm :
    Run.Along Pilot.step GesturesHeld Pilot.boot
        (replicate 20 (landedSticks 4500) ++ landedSticks 0 ::
          replicate 20 (landedSticks (-4500))) ∧
      (Run.run Pilot.step Pilot.boot (replicate 20 (landedSticks 4500))).state.armed = true :=
  ⟨gestures_held (by decide +kernel), by decide +kernel⟩

end Tm4cPilot.Copter
