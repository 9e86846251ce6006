import Tm4cPilot.Fence.Polygon
import Tm4cPilot.Lib.Run

/-!
# Fences

`AC_Fence` watches an altitude limit, a circle and a polygon.  `check_fence` keeps a bit for each
fence that is breached and returns those of new breaches.  Distances are rational numbers of metres.
-/

namespace Tm4cPilot.Fence

def typeNone : UInt8 := 0

def typeAltMax : UInt8 := 1

def typeCircle : UInt8 := 2

def typePolygon : UInt8 := 4

def altMaxBackupDistance : ℚ := 20

def circleRadiusBackupDistance : ℚ := 20

/-- `AC_FENCE_MANUAL_RECOVERY_TIME_MIN`, in milliseconds. -/
def manualRecoveryTimeMin : UInt32 := 10000

/-- The fence; `boundary` is `none` while no memory is allocated. -/
structure AcFence where
  enabled : Bool
  enabledFences : UInt8
  action : UInt8
  altMax : ℚ
  circleRadius : ℚ
  total : ℤ
  altMaxBackup : ℚ
  circleRadiusBackup : ℚ
  altMaxBreachDistance : ℚ
  circleBreachDistance : ℚ
  homeDistance : ℚ
  breachedFences : UInt8
  breachTime : UInt32
  breachCount : ℕ
  manualRecoveryStartMs : UInt32
  boundary : Option (List (Vector2 ℚ))
  boundaryNumPoints : ℤ
  boundaryCreateAttempted : Bool
  boundaryLoaded : Bool
  boundaryValid : Bool
  deriving DecidableEq, Repr

/-- What a call finds: the clock, the position, the EKF, the memory and the points of the storage.
-/
structure Surroundings where
  millis : UInt32
  position : Vector2 ℚ
  hasLocation : Bool
  canAllocate : Bool
  maxPoints : ℕ
  stored : ℕ → Vector2 ℚ

def isZero (x : ℚ) : Bool := decide (|x| < fltEpsilon)

namespace AcFence

def recordBreach (f : AcFence) (now : UInt32) (fenceType : UInt8) : AcFence :=
  { f with
    breachTime := if f.breachedFences = typeNone then now else f.breachTime
    breachCount := if f.breachCount < 65500 then f.breachCount + 1 else f.breachCount
    breachedFences := f.breachedFences ||| fenceType }

def clearBreach (f : AcFence) (fenceType : UInt8) : AcFence :=
  if f.breachedFences &&& fenceType = 0 then f
  else { f with breachedFences := f.breachedFences &&& ~~~fenceType }

def getBreaches (f : AcFence) : UInt8 := f.breachedFences

def manualRecoveryStart (f : AcFence) (now : UInt32) : AcFence :=
  if f.breachedFences = typeNone then f else { f with manualRecoveryStartMs := now }

def enable (f : AcFence) (trueFalse : Bool) : AcFence := { f with enabled := trueFalse }

def setHomeDistance (f : AcFence) (distance : ℚ) : AcFence := { f with homeDistance := distance }

/-- The altitude and the circle check: `value` is compared with the limit, `setDistance` and
`setBackup` write the fields. With it goes the bit of a new breach. -/
def checkLimit (f : AcFence) (now : UInt32) (fenceType : UInt8) (value limit backup : ℚ)
    (setDistance setBackup : AcFence → ℚ → AcFence) (backupDistance : ℚ) : AcFence × UInt8 :=
  if f.enabledFences &&& fenceType = 0 then (f, 0)
  else if limit ≤ value then
    let beyond := setDistance f (value - limit)
    if f.breachedFences &&& fenceType = 0 ∨ (isZero backup = false ∧ backup ≤ value) then
      (setBackup (beyond.recordBreach now fenceType) (value + backupDistance), fenceType)
    else (beyond, 0)
  else if f.breachedFences &&& fenceType = 0 then (f, 0)
  else (setDistance (setBackup (f.clearBreach fenceType) 0) 0, 0)

/-- The altitude check. -/
def checkAltMax (f : AcFence) (now : UInt32) (currAlt : ℚ) : AcFence × UInt8 :=
  f.checkLimit now typeAltMax currAlt f.altMax f.altMaxBackup
    (fun f d => { f with altMaxBreachDistance := d }) (fun f b => { f with altMaxBackup := b })
    altMaxBackupDistance

/-- The circle check. -/
def checkCircle (f : AcFence) (now : UInt32) : AcFence × UInt8 :=
  f.checkLimit now typeCircle f.homeDistance f.circleRadius f.circleRadiusBackup
    (fun f d => { f with circleBreachDistance := d })
    (fun f b => { f with circleRadiusBackup := b }) circleRadiusBackupDistance

/-- `load_polygon_from_eeprom`, if not loaded. -/
def loadPolygonFromEeprom (f : AcFence) (e : Surroundings) : AcFence :=
  if f.boundaryLoaded then f
  else
    let created := if f.boundaryCreateAttempted then f
      else { f with
        boundary := if e.canAllocate then some [] else none
        boundaryCreateAttempted := true }
    if created.boundary.isNone ∨ e.hasLocation = false then created
    else
      let total := max 0 (min f.total e.maxPoints)
      let points := (List.range total.toNat).map e.stored
      { created with
        total := total
        boundary := some points
        boundaryNumPoints := total
        boundaryLoaded := true
        boundaryValid := Fence.boundaryValid (some points) }

/-- The polygon check. -/
def checkPolygon (f : AcFence) (e : Surroundings) : AcFence × UInt8 :=
  if f.enabledFences &&& typePolygon = 0 then (f, 0)
  else
    let consistent := { f with
      boundaryLoaded := f.boundaryLoaded && decide (f.boundaryNumPoints = f.total) }
    if consistent.boundaryLoaded = false then (consistent.loadPolygonFromEeprom e, 0)
    else if consistent.boundaryValid = false then (consistent, 0)
    else if boundaryBreached e.position consistent.boundary = true then
      if consistent.breachedFences &&& typePolygon = 0 then
        (consistent.recordBreach e.millis typePolygon, typePolygon)
      else (consistent, 0)
    else if consistent.breachedFences &&& typePolygon = 0 then (consistent, 0)
    else (consistent.clearBreach typePolygon, 0)

/-- The pilot is recovering. -/
def InRecovery (f : AcFence) (now : UInt32) : Prop :=
  f.manualRecoveryStartMs ≠ 0 ∧ now - f.manualRecoveryStartMs < manualRecoveryTimeMin
deriving Decidable

/-- `check_fence`: the fence afterwards and the new breaches. -/
def checkFence (f : AcFence) (e : Surroundings) (currAlt : ℚ) : AcFence × UInt8 :=
  if f.enabled = false ∨ f.enabledFences = typeNone then (f, typeNone)
  else if f.InRecovery e.millis then (f, typeNone)
  else
    let alt := { f with manualRecoveryStartMs := 0 }.checkAltMax e.millis currAlt
    let circle := alt.1.checkCircle e.millis
    let polygon := circle.1.checkPolygon e
    (polygon.1, alt.2 ||| circle.2 ||| polygon.2)

/-- `get_breach_distance`, which does not know the polygon. -/
def getBreachDistance (f : AcFence) (fenceType : UInt8) : ℚ :=
  if fenceType = typeAltMax then f.altMaxBreachDistance
  else if fenceType = typeCircle then f.circleBreachDistance
  else if fenceType = typeAltMax ||| typeCircle then
    max f.altMaxBreachDistance f.circleBreachDistance
  else 0

end AcFence

end Tm4cPilot.Fence
