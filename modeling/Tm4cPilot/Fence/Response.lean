import Tm4cPilot.Copter.Arming
import Tm4cPilot.Fence.Breaches

/-!
# The response to a breach

`Copter::fence_check` disarms on the ground, returns to launch within `AC_FENCE_GIVE_UP_DISTANCE` of
the fence and lands beyond it.  The distance is looked up by the mask of all new breaches.
-/

namespace Tm4cPilot.Fence

open Copter

def actionReportOnly : UInt8 := 0

def giveUpDistance : ℚ := 100

/-- The parts of the vehicle `fence_check` reads and writes. -/
structure Vehicle where
  fence : AcFence
  controlMode : ControlMode
  armed : Bool

/-- What a call of `fence_check` finds, in centimetres. -/
structure FenceCall where
  surroundings : Surroundings
  homeDistance : ℚ
  alt : ℚ
  landComplete : Bool
  throttleZero : Bool
  failsafeRadio : Bool
  rtlAccepts : Bool
  landAccepts : Bool

/-- What `fence_check` does. -/
inductive FenceAction
  | initDisarmMotors
  | setMode (mode : ControlMode)
  | logBreach (breaches : UInt8)
  | logResolved
  deriving DecidableEq, Repr

/-- `set_mode`. A change starts a manual recovery. -/
def Vehicle.setMode (v : Vehicle) (mode : ControlMode) (accepts : Bool) (now : UInt32) :
    Bool × Vehicle :=
  if v.controlMode = mode then (true, v)
  else if accepts then
    (true, { v with controlMode := mode, fence := v.fence.manualRecoveryStart now })
  else (false, v)

/-- The motors are disarmed. -/
def Vehicle.DisarmsAtOnce (v : Vehicle) (c : FenceCall) : Prop :=
  c.landComplete = true ∨ (modeHasManualThrottle v.controlMode = true ∧ c.throttleZero = true ∧
    c.failsafeRadio = false ∧ v.fence.getBreaches &&& typeAltMax = 0)
deriving Decidable

/-- The answer to new breaches. -/
def Vehicle.respond (v : Vehicle) (c : FenceCall) (newBreaches : UInt8) :
    Vehicle × List FenceAction :=
  if v.fence.action = actionReportOnly then (v, [])
  else if v.DisarmsAtOnce c then ({ v with armed := false }, [.initDisarmMotors])
  else if v.fence.getBreachDistance newBreaches ≤ giveUpDistance then
    let rtl := v.setMode .rtl c.rtlAccepts c.surroundings.millis
    if rtl.1 then (rtl.2, [.setMode .rtl])
    else ((rtl.2.setMode .land c.landAccepts c.surroundings.millis).2,
      [.setMode .rtl, .setMode .land])
  else ((v.setMode .land c.landAccepts c.surroundings.millis).2, [.setMode .land])

/-- The fence as `fence_check` hands it to `check_fence`. -/
def FenceCall.given (c : FenceCall) (v : Vehicle) : AcFence :=
  v.fence.setHomeDistance (c.homeDistance / 100)

/-- The check of the fences. -/
def FenceCall.check (c : FenceCall) (v : Vehicle) : AcFence × UInt8 :=
  (c.given v).checkFence c.surroundings (c.alt / 100)

def Vehicle.fenceCheck (v : Vehicle) (c : FenceCall) : Vehicle × List FenceAction :=
  let origBreaches := v.fence.getBreaches
  let checked := { v with fence := (c.check v).1 }
  let newBreaches := (c.check v).2
  if v.armed = false then (checked, [])
  else
    let answered :=
      if newBreaches = typeNone then (checked, [])
      else
        let response := checked.respond c newBreaches
        (response.1, response.2 ++ [.logBreach newBreaches])
    if origBreaches ≠ typeNone ∧ answered.1.fence.getBreaches = typeNone then
      (answered.1, answered.2 ++ [.logResolved])
    else answered

/-! ## New breaches -/

/-- The polygon is newly breached. -/
def AcFence.NewPolygonBreach (f : AcFence) (e : Surroundings) : Prop :=
  HasFence f.enabledFences .polygon ∧ f.boundaryLoaded = true ∧ f.boundaryNumPoints = f.total ∧
    f.boundaryValid = true ∧ boundaryBreached e.position f.boundary = true ∧
    ¬ HasFence f.breachedFences .polygon
deriving Decidable

/-- The altitude limit is newly breached. -/
def AcFence.NewAltBreach (f : AcFence) (currAlt : ℚ) : Prop :=
  f.NewBreach .altMax currAlt f.altMax f.altMaxBackup
deriving Decidable

/-- The circle is newly breached. -/
def AcFence.NewCircleBreach (f : AcFence) : Prop :=
  f.NewBreach .circle f.homeDistance f.circleRadius f.circleRadiusBackup
deriving Decidable

namespace AcFence

theorem checkPolygon_snd (f : AcFence) (e : Surroundings) :
    (f.checkPolygon e).2 = if f.NewPolygonBreach e then typePolygon else 0 := by
  have bit : typePolygon = FenceType.polygon.bit := rfl
  unfold checkPolygon NewPolygonBreach
  simp only [bit, and_bit_eq_zero]
  grind

/-- What `NewPolygonBreach` reads besides the breaches. -/
def polygonState (f : AcFence) : UInt8 × Bool × ℤ × ℤ × Bool × Option (List (Vector2 ℚ)) :=
  (f.enabledFences, f.boundaryLoaded, f.boundaryNumPoints, f.total, f.boundaryValid, f.boundary)

variable {f : AcFence} {currAlt : ℚ}

theorem newPolygonBreach_congr {g : AcFence} (same : g.polygonState = f.polygonState)
    (bit : HasFence g.breachedFences .polygon ↔ HasFence f.breachedFences .polygon)
    (e : Surroundings) : g.NewPolygonBreach e ↔ f.NewPolygonBreach e := by
  simp only [polygonState, Prod.mk.injEq] at same
  obtain ⟨types, loaded, points, total, valid, boundary⟩ := same
  unfold NewPolygonBreach
  rw [bit, types, loaded, points, total, valid, boundary]

theorem checkAltMax_frame (f : AcFence) (now : UInt32) (currAlt : ℚ) :
    ((f.checkAltMax now currAlt).1.NewCircleBreach ↔ f.NewCircleBreach) ∧
      ∀ e, (f.checkAltMax now currAlt).1.NewPolygonBreach e ↔ f.NewPolygonBreach e := by
  obtain ⟨types, radius, distance⟩ := checkAltMax_config f now currAlt
  have backup : (f.checkAltMax now currAlt).1.circleRadiusBackup = f.circleRadiusBackup := by
    apply checkLimit_frame <;> intros <;> rfl
  constructor
  · unfold NewCircleBreach NewBreach
    rw [checkAltMax_hasFence, if_neg (by simp), types, radius, distance, backup]
  · refine newPolygonBreach_congr ?_ (by rw [checkAltMax_hasFence, if_neg (by simp)])
    apply checkLimit_frame <;> intros <;> rfl

theorem checkCircle_frame (f : AcFence) (now : UInt32) (e : Surroundings) :
    (f.checkCircle now).1.NewPolygonBreach e ↔ f.NewPolygonBreach e := by
  refine newPolygonBreach_congr ?_ (by rw [checkCircle_hasFence, if_neg (by simp)]) e
  apply checkLimit_frame <;> intros <;> rfl

theorem checkFence_snd {e : Surroundings}
    (on : ¬ (f.enabled = false ∨ f.enabledFences = typeNone)) (ended : ¬ f.InRecovery e.millis) :
    (f.checkFence e currAlt).2 =
      (if f.NewAltBreach currAlt then typeAltMax else 0) |||
        (if f.NewCircleBreach then typeCircle else 0) |||
        (if f.NewPolygonBreach e then typePolygon else 0) := by
  obtain ⟨circle, polygon⟩ :=
    checkAltMax_frame { f with manualRecoveryStartMs := 0 } e.millis currAlt
  have alt : ({ f with manualRecoveryStartMs := 0 }.checkAltMax e.millis currAlt).2 =
      if f.NewAltBreach currAlt then typeAltMax else 0 := checkLimit_snd (t := .altMax)
  have circleBits (g : AcFence) : (g.checkCircle e.millis).2 =
      if g.NewCircleBreach then typeCircle else 0 := checkLimit_snd (t := .circle)
  rw [checkFence_eq on ended]
  dsimp only
  rw [alt, circleBits, checkPolygon_snd]
  simp only [checkCircle_frame, circle, polygon]
  rfl

theorem checkPolygon_frame (f : AcFence) (e : Surroundings) :
    (f.checkPolygon e).1.action = f.action ∧
      (f.checkPolygon e).1.altMaxBreachDistance = f.altMaxBreachDistance ∧
      (f.checkPolygon e).1.circleBreachDistance = f.circleBreachDistance := by
  simp only [checkPolygon, loadPolygonFromEeprom, recordBreach, clearBreach]
  split_ifs <;> exact ⟨rfl, rfl, rfl⟩

theorem checkAltMax_distance (f : AcFence) (now : UInt32)
    (new : f.NewAltBreach currAlt) :
    (f.checkAltMax now currAlt).1.altMaxBreachDistance = currAlt - f.altMax := by
  refine checkLimit_distance (t := .altMax) ?_ ?_ ?_ new <;> intros <;> rfl

theorem checkCircle_distance (f : AcFence) (now : UInt32) (new : f.NewCircleBreach) :
    (f.checkCircle now).1.circleBreachDistance = f.homeDistance - f.circleRadius := by
  refine checkLimit_distance (t := .circle) ?_ ?_ ?_ new <;> intros <;> rfl

theorem checkFence_distances {e : Surroundings}
    (on : ¬ (f.enabled = false ∨ f.enabledFences = typeNone)) (ended : ¬ f.InRecovery e.millis) :
    (f.NewAltBreach currAlt →
        (f.checkFence e currAlt).1.altMaxBreachDistance = currAlt - f.altMax) ∧
      (f.NewCircleBreach →
        (f.checkFence e currAlt).1.circleBreachDistance = f.homeDistance - f.circleRadius) := by
  have circleAlt (g : AcFence) :
      (g.checkCircle e.millis).1.altMaxBreachDistance = g.altMaxBreachDistance := by
    apply checkLimit_frame <;> intros <;> rfl
  rw [checkFence_eq on ended]
  rw [(checkPolygon_frame _ e).2.1, (checkPolygon_frame _ e).2.2, circleAlt]
  obtain ⟨circle, -⟩ := checkAltMax_frame { f with manualRecoveryStartMs := 0 } e.millis currAlt
  obtain ⟨-, radius, distance⟩ :=
    checkAltMax_config { f with manualRecoveryStartMs := 0 } e.millis currAlt
  constructor
  · intro new
    exact checkAltMax_distance { f with manualRecoveryStartMs := 0 } e.millis new
  · intro new
    rw [checkCircle_distance _ e.millis (circle.mpr new), radius, distance]

end AcFence

/-! ## Giving up -/

/-- The modes that are asked for. -/
def modesAsked (actions : List FenceAction) : List ControlMode :=
  actions.filterMap fun
    | .setMode mode => some mode
    | _ => none

/-- A new breach by more than the give-up distance. -/
def FarBreach (v : Vehicle) (c : FenceCall) : Prop :=
  (HasFence (c.check v).2 .altMax ∧ giveUpDistance < c.alt / 100 - v.fence.altMax) ∨
    (HasFence (c.check v).2 .circle ∧ giveUpDistance < c.homeDistance / 100 - v.fence.circleRadius)
deriving Decidable

/-- The vehicle is in RTL, or RTL accepts. -/
def RtlGranted (v : Vehicle) (c : FenceCall) : Prop := v.controlMode = .rtl ∨ c.rtlAccepts = true
deriving Decidable

/-- Land beyond the give-up distance; otherwise return to launch, or land if that is refused. -/
def FollowsGiveUpDistance (v : Vehicle) (c : FenceCall) : Prop :=
  modesAsked (v.fenceCheck c).2 =
    if FarBreach v c then [.land] else if RtlGranted v c then [.rtl] else [.rtl, .land]
deriving Decidable

/-- Armed, with new breaches and an action, and not disarmed. -/
structure Answers (v : Vehicle) (c : FenceCall) : Prop where
  armed : v.armed = true
  action : v.fence.action ≠ actionReportOnly
  new : (c.check v).2 ≠ typeNone
  flies : ¬ { v with fence := (c.check v).1 }.DisarmsAtOnce c

/-- A far breach comes with a new breach of the polygon. -/
def HiddenFarBreach (v : Vehicle) (c : FenceCall) : Prop :=
  (c.given v).NewPolygonBreach c.surroundings ∧
    ((c.given v).NewAltBreach (c.alt / 100) ∧ giveUpDistance < c.alt / 100 - v.fence.altMax ∨
      (c.given v).NewCircleBreach ∧
        giveUpDistance < c.homeDistance / 100 - v.fence.circleRadius)

theorem checkFence_action (f : AcFence) (e : Surroundings) (currAlt : ℚ) :
    (f.checkFence e currAlt).1.action = f.action := by
  have alt (g : AcFence) : (g.checkAltMax e.millis currAlt).1.action = g.action := by
    apply AcFence.checkLimit_frame <;> intros <;> rfl
  have circle (g : AcFence) : (g.checkCircle e.millis).1.action = g.action := by
    apply AcFence.checkLimit_frame <;> intros <;> rfl
  simp only [AcFence.checkFence]
  split_ifs
  · rfl
  · rfl
  · rw [(AcFence.checkPolygon_frame _ e).1, circle, alt]

theorem setMode_fst (v : Vehicle) (mode : ControlMode) (accepts : Bool) (now : UInt32) :
    (v.setMode mode accepts now).1 = true ↔ v.controlMode = mode ∨ accepts = true := by
  unfold Vehicle.setMode
  split_ifs with same accepted
  · simp [same]
  · simp [accepted]
  · simp [same, accepted]

theorem modesAsked_eq {v : Vehicle} {c : FenceCall} (answers : Answers v c) :
    modesAsked (v.fenceCheck c).2 =
      if (c.check v).1.getBreachDistance (c.check v).2 ≤ giveUpDistance then
        if RtlGranted v c then [.rtl] else [.rtl, .land]
      else [.land] := by
  have armed : v.armed ≠ false := by simp [answers.armed]
  have action : (c.check v).1.action ≠ actionReportOnly := by
    rw [FenceCall.check, checkFence_action]
    exact answers.action
  have response : modesAsked (v.fenceCheck c).2 =
      modesAsked ({ v with fence := (c.check v).1 }.respond c (c.check v).2).2 := by
    unfold Vehicle.fenceCheck modesAsked
    dsimp only
    rw [if_neg armed, if_neg answers.new]
    split_ifs <;> simp
  have flies := answers.flies
  rw [response]
  unfold Vehicle.respond
  rw [if_neg action, if_neg flies]
  have grants : ({ v with fence := (c.check v).1 }.setMode .rtl c.rtlAccepts
      c.surroundings.millis).1 = true ↔ RtlGranted v c := setMode_fst _ _ _ _
  by_cases near : (c.check v).1.getBreachDistance (c.check v).2 ≤ giveUpDistance
  · rw [if_pos near, if_pos near]
    by_cases granted : RtlGranted v c
    · rw [if_pos granted, if_pos (grants.mpr granted)]
      rfl
    · rw [if_neg granted, if_neg (grants.not.mpr granted)]
      rfl
  · rw [if_neg near, if_neg near]
    rfl

theorem getBreachDistance_new (f : AcFence) (alt circle polygon : Prop) [Decidable alt]
    [Decidable circle] [Decidable polygon] :
    f.getBreachDistance ((if alt then typeAltMax else 0) ||| (if circle then typeCircle else 0) |||
        (if polygon then typePolygon else 0)) =
      if polygon ∨ (¬ alt ∧ ¬ circle) then 0
      else if ¬ circle then f.altMaxBreachDistance
      else if ¬ alt then f.circleBreachDistance
      else max f.altMaxBreachDistance f.circleBreachDistance := by
  by_cases a : alt <;> by_cases c : circle <;> by_cases p : polygon <;>
    simp only [a, c, p, if_true, if_false, not_true_eq_false, not_false_eq_true, and_self, and_true,
      and_false, or_self, or_true, or_false] <;> rfl

theorem hasFence_new (alt circle polygon : Prop) [Decidable alt] [Decidable circle]
    [Decidable polygon] :
    (HasFence ((if alt then typeAltMax else 0) ||| (if circle then typeCircle else 0) |||
        (if polygon then typePolygon else 0)) .altMax ↔ alt) ∧
    (HasFence ((if alt then typeAltMax else 0) ||| (if circle then typeCircle else 0) |||
        (if polygon then typePolygon else 0)) .circle ↔ circle) := by
  by_cases a : alt <;> by_cases c : circle <;> by_cases p : polygon <;> simp only [a, c, p] <;> decide

section NewBreaches

variable {v : Vehicle} {c : FenceCall}

section

variable (new : (c.check v).2 ≠ typeNone)
include new

theorem switchedOn_of_new :
    ¬ ((c.given v).enabled = false ∨ (c.given v).enabledFences = typeNone) := fun off =>
  new (by rw [FenceCall.check, AcFence.checkFence, if_pos off])

theorem not_inRecovery_of_new : ¬ (c.given v).InRecovery c.surroundings.millis := fun inside =>
  new (by rw [FenceCall.check, AcFence.checkFence, if_neg (switchedOn_of_new new), if_pos inside])

theorem check_snd :
    (c.check v).2 =
      (if (c.given v).NewAltBreach (c.alt / 100) then typeAltMax else 0) |||
        (if (c.given v).NewCircleBreach then typeCircle else 0) |||
        (if (c.given v).NewPolygonBreach c.surroundings then typePolygon else 0) :=
  AcFence.checkFence_snd (switchedOn_of_new new) (not_inRecovery_of_new new)

theorem hasFence_check :
    (HasFence (c.check v).2 .altMax ↔ (c.given v).NewAltBreach (c.alt / 100)) ∧
      (HasFence (c.check v).2 .circle ↔ (c.given v).NewCircleBreach) := by
  rw [check_snd new]
  exact hasFence_new _ _ _

/-- The distance is within the give-up distance exactly if the polygon hides it or no new breach is
far. -/
theorem near_iff :
    (c.check v).1.getBreachDistance (c.check v).2 ≤ giveUpDistance ↔
      (c.given v).NewPolygonBreach c.surroundings ∨ ¬ FarBreach v c := by
  obtain ⟨alt, circle⟩ : (_ → (c.check v).1.altMaxBreachDistance = c.alt / 100 - v.fence.altMax) ∧
      (_ → (c.check v).1.circleBreachDistance = c.homeDistance / 100 - v.fence.circleRadius) :=
    AcFence.checkFence_distances (switchedOn_of_new new) (not_inRecovery_of_new new)
  have zero : (0 : ℚ) ≤ giveUpDistance := by decide
  unfold FarBreach
  rw [(hasFence_check new).1, (hasFence_check new).2, check_snd new, getBreachDistance_new]
  by_cases a : (c.given v).NewAltBreach (c.alt / 100) <;>
    by_cases b : (c.given v).NewCircleBreach <;>
    by_cases p : (c.given v).NewPolygonBreach c.surroundings
  all_goals simp [a, b, p, zero, alt, circle]

end

end NewBreaches

/-- The response follows the give-up distance exactly if no far breach comes with a new breach of
the polygon. -/
theorem follows_giveUpDistance_iff {v : Vehicle} {c : FenceCall} (answers : Answers v c) :
    FollowsGiveUpDistance v c ↔ ¬ HiddenFarBreach v c := by
  have hidden : HiddenFarBreach v c ↔
      (c.given v).NewPolygonBreach c.surroundings ∧ FarBreach v c := by
    unfold HiddenFarBreach FarBreach
    rw [(hasFence_check answers.new).1, (hasFence_check answers.new).2]
  have near := near_iff answers.new
  unfold FollowsGiveUpDistance
  rw [modesAsked_eq answers, hidden]
  by_cases far : FarBreach v c <;>
    by_cases polygon : (c.given v).NewPolygonBreach c.surroundings <;>
    by_cases granted : RtlGranted v c <;> simp [near, far, polygon, granted]

/-- A square round home. -/
def squareBoundary : ℕ → Vector2 ℚ
  | 0 => ⟨0, 0⟩
  | 2 => ⟨1000, -1000⟩
  | 3 => ⟨1000, 1000⟩
  | 4 => ⟨-1000, 1000⟩
  | _ => ⟨-1000, -1000⟩

/-- A call in the air, in centimetres from home. -/
def flyingCall (millis : UInt32) (x y alt : ℚ) : FenceCall where
  surroundings := ⟨millis, ⟨x, y⟩, true, true, 80, squareBoundary⟩
  homeDistance := x
  alt := alt
  landComplete := false
  throttleZero := false
  failsafeRadio := false
  rtlAccepts := true
  landAccepts := true

/-- Armed in loiter with all fences, the polygon loaded. -/
def loadedVehicle : Vehicle :=
  (Vehicle.fenceCheck ⟨{ AcFence.boot with enabledFences := 7, total := 6 }, .loiter, true⟩
    (flyingCall 1000 0 0 5000)).1

/-- 110 metres above the limit and outside the polygon: the copter returns to launch. -/
theorem far_breach_hidden :
    Answers loadedVehicle (flyingCall 2000 5000 5000 21000) ∧
      ¬ FollowsGiveUpDistance loadedVehicle (flyingCall 2000 5000 5000 21000) :=
  ⟨⟨by decide +kernel, by decide +kernel, by decide +kernel, by decide +kernel⟩,
    by decide +kernel⟩

/-- 110 metres above the altitude limit inside the polygon: the copter lands. -/
theorem follows_giveUpDistance_alt :
    Answers loadedVehicle (flyingCall 2000 0 0 21000) ∧
      FollowsGiveUpDistance loadedVehicle (flyingCall 2000 0 0 21000) := by
  have answers : Answers loadedVehicle (flyingCall 2000 0 0 21000) :=
    ⟨by decide +kernel, by decide +kernel, by decide +kernel, by decide +kernel⟩
  exact ⟨answers, (follows_giveUpDistance_iff answers).mpr (by unfold HiddenFarBreach; decide +kernel)⟩

end Tm4cPilot.Fence
