import Mathlib.Data.FinEnum
import Tm4cPilot.Fence.Model

/-!
# The breach bits

`check_fence` updates the bit of a fence only if it is enabled, so a bit that was set before it was
switched off stays.
-/

namespace Tm4cPilot.Fence

/-- The three fences. -/
inductive FenceType
  | altMax
  | circle
  | polygon
  deriving DecidableEq, Repr

/-- The bit of a fence. -/
def FenceType.bit : FenceType → UInt8
  | .altMax => typeAltMax
  | .circle => typeCircle
  | .polygon => typePolygon

/-- The bit is set. -/
def HasFence (mask : UInt8) (t : FenceType) : Prop := mask &&& t.bit ≠ 0
deriving Decidable

/-- The number of the bit. -/
def FenceType.position : FenceType → ℕ
  | .altMax => 0
  | .circle => 1
  | .polygon => 2

theorem hasFence_iff_getLsbD (mask : UInt8) (t : FenceType) :
    HasFence mask t ↔ mask.toBitVec.getLsbD t.position = true := by
  cases t <;> revert mask <;> decide +kernel

@[simp] theorem hasFence_or_bit (mask : UInt8) (t u : FenceType) :
    HasFence (mask ||| t.bit) u ↔ HasFence mask u ∨ u = t := by
  rw [hasFence_iff_getLsbD, hasFence_iff_getLsbD, UInt8.toBitVec_or, BitVec.getLsbD_or,
    Bool.or_eq_true]
  refine or_congr Iff.rfl ?_
  cases t <;> cases u <;> decide

@[simp] theorem hasFence_and_not_bit (mask : UInt8) (t u : FenceType) :
    HasFence (mask &&& ~~~t.bit) u ↔ HasFence mask u ∧ u ≠ t := by
  rw [hasFence_iff_getLsbD, hasFence_iff_getLsbD, UInt8.toBitVec_and, BitVec.getLsbD_and,
    Bool.and_eq_true]
  refine and_congr Iff.rfl ?_
  cases t <;> cases u <;> decide

@[simp] theorem not_hasFence_zero (t : FenceType) : ¬ HasFence 0 t := by
  cases t <;> decide

theorem and_bit_eq_zero {mask : UInt8} {t : FenceType} : mask &&& t.bit = 0 ↔ ¬ HasFence mask t :=
  Decidable.not_not.symm

namespace AcFence

@[simp] theorem recordBreach_hasFence (f : AcFence) (now : UInt32) (t u : FenceType) :
    HasFence (f.recordBreach now t.bit).breachedFences u ↔ HasFence f.breachedFences u ∨ u = t :=
  hasFence_or_bit f.breachedFences t u

@[simp] theorem clearBreach_hasFence (f : AcFence) (t u : FenceType) :
    HasFence (f.clearBreach t.bit).breachedFences u ↔ HasFence f.breachedFences u ∧ u ≠ t := by
  unfold clearBreach
  by_cases bit : f.breachedFences &&& t.bit = 0
  · rw [if_pos bit]
    have clear := and_bit_eq_zero.mp bit
    exact ⟨fun set => ⟨set, fun same => clear (same ▸ set)⟩, fun h => h.1⟩
  · rw [if_neg bit]
    exact hasFence_and_not_bit f.breachedFences t u

/-! ## What the three checks do to the bits -/

/-- The limit is reached, and the breach not known or at the backup limit. -/
def NewBreach (f : AcFence) (t : FenceType) (value limit backup : ℚ) : Prop :=
  HasFence f.enabledFences t ∧ limit ≤ value ∧
    (¬ HasFence f.breachedFences t ∨ (isZero backup = false ∧ backup ≤ value))
deriving Decidable

section Limit

variable {f : AcFence} {now : UInt32} {t : FenceType} {value limit backup backupDistance : ℚ}
  {setDistance setBackup : AcFence → ℚ → AcFence}

theorem checkLimit_hasFence (hd : ∀ f d, (setDistance f d).breachedFences = f.breachedFences)
    (hb : ∀ f b, (setBackup f b).breachedFences = f.breachedFences) (u : FenceType) :
    HasFence (f.checkLimit now t.bit value limit backup setDistance setBackup
        backupDistance).1.breachedFences u ↔
      if u = t ∧ HasFence f.enabledFences t then limit ≤ value
      else HasFence f.breachedFences u := by
  unfold checkLimit
  simp only [and_bit_eq_zero]
  by_cases enabled : HasFence f.enabledFences t
  · by_cases beyond : limit ≤ value
    · by_cases new : ¬ HasFence f.breachedFences t ∨ (isZero backup = false ∧ backup ≤ value)
      · simp only [enabled, beyond, new, not_true_eq_false, if_true, if_false, and_true, hb,
          recordBreach_hasFence, hd]
        by_cases own : u = t <;> simp [own]
      · have set : HasFence f.breachedFences t := by tauto
        simp only [enabled, beyond, new, not_true_eq_false, if_true, if_false, and_true, hd]
        by_cases own : u = t <;> simp [own, set]
    · by_cases set : HasFence f.breachedFences t
      · simp only [enabled, beyond, set, not_true_eq_false, if_false, and_true, hd, hb,
          clearBreach_hasFence]
        by_cases own : u = t <;> simp [own]
      · simp only [enabled, beyond, set, not_true_eq_false, not_false_eq_true, if_true, if_false,
          and_true]
        by_cases own : u = t <;> simp [own, set]
  · simp [enabled]

theorem checkLimit_snd :
    (f.checkLimit now t.bit value limit backup setDistance setBackup backupDistance).2 =
      if f.NewBreach t value limit backup then t.bit else 0 := by
  unfold checkLimit NewBreach
  simp only [and_bit_eq_zero]
  by_cases enabled : HasFence f.enabledFences t
  · by_cases beyond : limit ≤ value
    · by_cases new : ¬ HasFence f.breachedFences t ∨ (isZero backup = false ∧ backup ≤ value)
      · simp only [enabled, beyond, new, not_true_eq_false, if_true, if_false, true_and]
      · simp only [enabled, beyond, new, not_true_eq_false, if_true, if_false, true_and]
    · simp only [enabled, beyond, not_true_eq_false, if_false, false_and, and_false]
      split_ifs <;> rfl
  · simp [enabled]

theorem checkLimit_distance {distance : AcFence → ℚ} (hd : ∀ f d, distance (setDistance f d) = d)
    (hb : ∀ f b, distance (setBackup f b) = distance f)
    (hr : ∀ f now mask, distance (recordBreach f now mask) = distance f)
    (new : f.NewBreach t value limit backup) :
    distance (f.checkLimit now t.bit value limit backup setDistance setBackup backupDistance).1 =
      value - limit := by
  obtain ⟨enabled, beyond, fresh⟩ := new
  simp only [checkLimit, and_bit_eq_zero, enabled, beyond, fresh, not_true_eq_false, if_true,
    if_false, hb, hr, hd]

theorem checkLimit_frame {α : Type*} {π : AcFence → α} (hd : ∀ f d, π (setDistance f d) = π f)
    (hb : ∀ f b, π (setBackup f b) = π f) (hr : ∀ f now mask, π (recordBreach f now mask) = π f)
    (hc : ∀ f mask, π { f with breachedFences := mask } = π f) (mask : UInt8) :
    π (f.checkLimit now mask value limit backup setDistance setBackup backupDistance).1 = π f := by
  have cleared : π (f.clearBreach mask) = π f := by
    unfold clearBreach
    split_ifs
    · rfl
    · exact hc f _
  simp only [checkLimit]
  split_ifs <;> simp only [hd, hb, hr, cleared]

end Limit

theorem checkAltMax_hasFence (f : AcFence) (now : UInt32) (currAlt : ℚ) (u : FenceType) :
    HasFence (f.checkAltMax now currAlt).1.breachedFences u ↔
      if u = .altMax ∧ HasFence f.enabledFences .altMax then f.altMax ≤ currAlt
      else HasFence f.breachedFences u := by
  apply checkLimit_hasFence (t := .altMax) <;> intros <;> rfl

theorem checkCircle_hasFence (f : AcFence) (now : UInt32) (u : FenceType) :
    HasFence (f.checkCircle now).1.breachedFences u ↔
      if u = .circle ∧ HasFence f.enabledFences .circle then f.circleRadius ≤ f.homeDistance
      else HasFence f.breachedFences u := by
  apply checkLimit_hasFence (t := .circle) <;> intros <;> rfl

theorem loadPolygonFromEeprom_breachedFences (f : AcFence) (e : Surroundings) :
    (f.loadPolygonFromEeprom e).breachedFences = f.breachedFences := by
  simp only [loadPolygonFromEeprom]
  split_ifs <;> rfl

theorem checkPolygon_hasFence (f : AcFence) (e : Surroundings) {u : FenceType}
    (other : u ≠ .polygon) :
    HasFence (f.checkPolygon e).1.breachedFences u ↔ HasFence f.breachedFences u := by
  have bit : typePolygon = FenceType.polygon.bit := rfl
  simp only [checkPolygon, bit]
  split_ifs <;>
    simp only [loadPolygonFromEeprom_breachedFences, recordBreach_hasFence, clearBreach_hasFence,
      other, or_false, ne_eq, not_false_eq_true, and_true]

theorem checkAltMax_config (f : AcFence) (now : UInt32) (currAlt : ℚ) :
    (f.checkAltMax now currAlt).1.enabledFences = f.enabledFences ∧
      (f.checkAltMax now currAlt).1.circleRadius = f.circleRadius ∧
      (f.checkAltMax now currAlt).1.homeDistance = f.homeDistance := by
  refine ⟨?_, ?_, ?_⟩
  all_goals
    apply checkLimit_frame <;> intros <;> rfl

/-- The fence is switched on and watches `t`. -/
def Active (f : AcFence) (t : FenceType) : Prop := f.enabled = true ∧ HasFence f.enabledFences t
deriving Decidable

/-- The bits say if the fence is active and its limit reached. -/
def Accurate (f : AcFence) (currAlt : ℚ) (breaches : UInt8) : Prop :=
  (HasFence breaches .altMax ↔ f.Active .altMax ∧ f.altMax ≤ currAlt) ∧
    (HasFence breaches .circle ↔ f.Active .circle ∧ f.circleRadius ≤ f.homeDistance)
deriving Decidable

/-- No bit of a fence that is not active. -/
def NoStaleBreach (f : AcFence) : Prop :=
  (HasFence f.breachedFences .altMax → f.Active .altMax) ∧
    (HasFence f.breachedFences .circle → f.Active .circle)
deriving Decidable

variable {f : AcFence} {e : Surroundings}

theorem enabledFences_ne_typeNone {t : FenceType}
    (has : HasFence f.enabledFences t) : f.enabledFences ≠ typeNone :=
  fun none => not_hasFence_zero t (by rwa [none] at has)

theorem checkFence_eq {currAlt : ℚ}
    (on : ¬ (f.enabled = false ∨ f.enabledFences = typeNone)) (ended : ¬ f.InRecovery e.millis) :
    f.checkFence e currAlt =
      let alt := { f with manualRecoveryStartMs := 0 }.checkAltMax e.millis currAlt
      let circle := alt.1.checkCircle e.millis
      let polygon := circle.1.checkPolygon e
      (polygon.1, alt.2 ||| circle.2 ||| polygon.2) := by
  unfold checkFence
  rw [if_neg on, if_neg ended]

/-- After a check the bit of an active fence is the comparison with its limit, and the others are
what they were. -/
theorem checkFence_hasFence (ended : ¬ f.InRecovery e.millis)
    (currAlt : ℚ) :
    (HasFence (f.checkFence e currAlt).1.getBreaches .altMax ↔
      if f.Active .altMax then f.altMax ≤ currAlt else HasFence f.breachedFences .altMax) ∧
    (HasFence (f.checkFence e currAlt).1.getBreaches .circle ↔
      if f.Active .circle then f.circleRadius ≤ f.homeDistance
      else HasFence f.breachedFences .circle) := by
  unfold getBreaches Active
  by_cases off : f.enabled = false ∨ f.enabledFences = typeNone
  · have inactive (t : FenceType) : ¬ (f.enabled = true ∧ HasFence f.enabledFences t) := by
      rintro ⟨on, has⟩
      rcases off with off | none
      · exact absurd (off.symm.trans on) (by decide)
      · exact enabledFences_ne_typeNone has none
    have same : f.checkFence e currAlt = (f, typeNone) := if_pos off
    simp only [same, inactive, if_false, and_self]
  · have on : f.enabled = true := by
      cases on : f.enabled with
      | true => rfl
      | false => exact absurd (Or.inl on) off
    obtain ⟨types, radius, distance⟩ :=
      checkAltMax_config { f with manualRecoveryStartMs := 0 } e.millis currAlt
    rw [checkFence_eq off ended]
    rw [checkPolygon_hasFence _ _ (by decide), checkPolygon_hasFence _ _ (by decide),
      checkCircle_hasFence, checkCircle_hasFence, checkAltMax_hasFence, checkAltMax_hasFence,
      types, radius, distance]
    simp [on]

theorem checkFence_accurate_iff (ended : ¬ f.InRecovery e.millis)
    (currAlt : ℚ) :
    f.Accurate currAlt (f.checkFence e currAlt).1.getBreaches ↔ f.NoStaleBreach := by
  obtain ⟨alt, circle⟩ := checkFence_hasFence ended currAlt
  unfold Accurate NoStaleBreach
  rw [alt, circle]
  refine and_congr ?_ ?_
  · by_cases active : f.Active .altMax <;> simp [active]
  · by_cases active : f.Active .circle <;> simp [active]

end AcFence

inductive FenceEvent
  | check (e : Surroundings) (currAlt : ℚ)
  | enable (trueFalse : Bool)
  | setTypes (enabledFences : UInt8)
  | setAltMax (limit : ℚ)
  | setCircleRadius (radius : ℚ)
  | setHomeDistance (distance : ℚ)
  | manualRecoveryStart (now : UInt32)

def AcFence.step (f : AcFence) : FenceEvent → AcFence
  | .check e currAlt => (f.checkFence e currAlt).1
  | .enable trueFalse => f.enable trueFalse
  | .setTypes enabledFences => { f with enabledFences := enabledFences }
  | .setAltMax limit => { f with altMax := limit }
  | .setCircleRadius radius => { f with circleRadius := radius }
  | .setHomeDistance distance => f.setHomeDistance distance
  | .manualRecoveryStart now => f.manualRecoveryStart now

/-- A check leaves the bits accurate. -/
def AccurateCheck (f : AcFence) : FenceEvent → Prop
  | .check e currAlt => ¬ f.InRecovery e.millis →
      f.Accurate currAlt (f.checkFence e currAlt).1.getBreaches
  | _ => True

/-- A check finds no stale bit. -/
def FreshCheck (f : AcFence) : FenceEvent → Prop
  | .check e _ => ¬ f.InRecovery e.millis → f.NoStaleBreach
  | _ => True

instance : DecidableRel AccurateCheck
  | f, .check e currAlt => by unfold AccurateCheck; infer_instance
  | _, .enable _ | _, .setTypes _ | _, .setAltMax _ | _, .setCircleRadius _
  | _, .setHomeDistance _ | _, .manualRecoveryStart _ => .isTrue trivial

/-- The bits are accurate after each check exactly if the checks find no bit of a fence that is not
active. -/
theorem breaches_accurate_iff (f : AcFence) (events : List FenceEvent) :
    Run.Along AcFence.step AccurateCheck f events ↔ Run.Along AcFence.step FreshCheck f events := by
  refine Run.along_congr (I := fun _ => True) (fun f event _ => ?_) (fun _ _ _ _ => trivial) trivial
  cases event with
  | check e currAlt => exact forall_congr' fun ended => AcFence.checkFence_accurate_iff ended currAlt
  | _ => exact Iff.rfl

/-- The fence at boot. -/
def AcFence.boot : AcFence where
  enabled := true
  enabledFences := 3
  action := 1
  altMax := 100
  circleRadius := 300
  total := 0
  altMaxBackup := 0
  circleRadiusBackup := 0
  altMaxBreachDistance := 0
  circleBreachDistance := 0
  homeDistance := 0
  breachedFences := 0
  breachTime := 0
  breachCount := 0
  manualRecoveryStartMs := 0
  boundary := none
  boundaryNumPoints := 0
  boundaryCreateAttempted := false
  boundaryLoaded := false
  boundaryValid := false

/-- The surroundings at a time. -/
def atTime (millis : UInt32) : Surroundings := ⟨millis, ⟨0, 0⟩, true, true, 0, fun _ => ⟨0, 0⟩⟩

/-- A breach, and then the fence is switched off: the altitude bit stays set. -/
theorem breaches_stale : ¬ Run.Along AcFence.step AccurateCheck AcFence.boot
    [.check (atTime 1000) 120, .enable false, .check (atTime 2000) 120] := by
  decide +kernel

end Tm4cPilot.Fence
