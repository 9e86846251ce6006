import Mathlib.Data.Rat.Floor

/-!
# Mission items

Two functions convert between MISSION_ITEM_INT packets and commands, with a case for every command
id. Single precision numbers are rationals here, and `0.01f` is one hundredth.
-/

namespace Tm4cPilot.MissionItem

/-- `MAV_MISSION_RESULT`. -/
inductive MissionResult where
  | accepted | error | unsupportedFrame | unsupported | noSpace | invalid | invalidParam1
  | invalidParam2 | invalidParam3 | invalidParam4 | invalidParam5X | invalidParam6Y | invalidParam7
  | invalidSequence | denied
  deriving DecidableEq, Inhabited

/-- `MAV_FRAME`; `other` has no case. -/
inductive Frame where
  | global | mission | globalRelativeAlt | globalTerrainAlt | other
  deriving DecidableEq, Inhabited

/-- `mavlink_mission_item_int_t`, with 32 bit `x` and `y`. -/
structure Packet where
  param1 : ℚ
  param2 : ℚ
  param3 : ℚ
  param4 : ℚ
  x : ℤ
  y : ℤ
  z : ℚ
  seq : UInt16
  command : UInt16
  frame : Frame
  current : UInt8
  autocontinue : UInt8
  deriving DecidableEq, Inhabited

/-- The command ids with a case. -/
inductive MavCmd where
  | navWaypoint | navLoiterUnlim | navLoiterTurns | navLoiterTime | navReturnToLaunch | navLand
  | navTakeoff | navContinueAndChangeAlt | navLoiterToAlt | navSplineWaypoint | navAltitudeWait
  | navVtolTakeoff | navVtolLand | navGuidedEnable | navDelay | navPayloadPlace | conditionDelay
  | conditionDistance | conditionYaw | doSetMode | doJump | doChangeSpeed | doSetHome | doSetRelay
  | doRepeatRelay | doSetServo | doRepeatServo | doLandStart | doSetReverse | doSetRoi
  | doDigicamConfigure | doDigicamControl | doMountControl | doSetCamTriggDist | doFenceEnable
  | doParachute | doInvertedFlight | doGripper | doAutotuneEnable | doGuidedLimits
  | doEngineControl | doVtolTransition
  deriving DecidableEq

namespace MavCmd

def all : List MavCmd :=
  [.navWaypoint, .navLoiterUnlim, .navLoiterTurns, .navLoiterTime, .navReturnToLaunch, .navLand,
    .navTakeoff, .navContinueAndChangeAlt, .navLoiterToAlt, .navSplineWaypoint, .navAltitudeWait,
    .navVtolTakeoff, .navVtolLand, .navGuidedEnable, .navDelay, .navPayloadPlace, .conditionDelay,
    .conditionDistance, .conditionYaw, .doSetMode, .doJump, .doChangeSpeed, .doSetHome, .doSetRelay,
    .doRepeatRelay, .doSetServo, .doRepeatServo, .doLandStart, .doSetReverse, .doSetRoi,
    .doDigicamConfigure, .doDigicamControl, .doMountControl, .doSetCamTriggDist, .doFenceEnable,
    .doParachute, .doInvertedFlight, .doGripper, .doAutotuneEnable, .doGuidedLimits,
    .doEngineControl, .doVtolTransition]

def code : MavCmd → UInt16
  | navWaypoint => 16
  | navLoiterUnlim => 17
  | navLoiterTurns => 18
  | navLoiterTime => 19
  | navReturnToLaunch => 20
  | navLand => 21
  | navTakeoff => 22
  | navContinueAndChangeAlt => 30
  | navLoiterToAlt => 31
  | navSplineWaypoint => 82
  | navAltitudeWait => 83
  | navVtolTakeoff => 84
  | navVtolLand => 85
  | navGuidedEnable => 92
  | navDelay => 93
  | navPayloadPlace => 94
  | conditionDelay => 112
  | conditionDistance => 114
  | conditionYaw => 115
  | doSetMode => 176
  | doJump => 177
  | doChangeSpeed => 178
  | doSetHome => 179
  | doSetRelay => 181
  | doRepeatRelay => 182
  | doSetServo => 183
  | doRepeatServo => 184
  | doLandStart => 189
  | doSetReverse => 194
  | doSetRoi => 201
  | doDigicamConfigure => 202
  | doDigicamControl => 203
  | doMountControl => 205
  | doSetCamTriggDist => 206
  | doFenceEnable => 207
  | doParachute => 208
  | doInvertedFlight => 210
  | doGripper => 211
  | doAutotuneEnable => 212
  | doGuidedLimits => 222
  | doEngineControl => 223
  | doVtolTransition => 3000

/-- The command of an id. -/
def ofCode (id : UInt16) : Option MavCmd := all.find? fun c => c.code = id

end MavCmd

/-! ## Commands -/

structure Location where
  relativeAlt : Bool
  loiterCcw : Bool
  terrainAlt : Bool
  originAlt : Bool
  loiterXtrack : Bool
  alt : ℤ
  lat : ℤ
  lng : ℤ
  deriving DecidableEq, Inhabited

structure JumpCommand where
  target : UInt16
  numTimes : Int16
  deriving DecidableEq, Inhabited

structure YawCommand where
  angleDeg : ℚ
  turnRateDps : ℚ
  direction : Int8
  relativeAngle : UInt8
  deriving DecidableEq, Inhabited

structure ChangeSpeedCommand where
  speedType : UInt8
  targetMs : ℚ
  throttlePct : ℚ
  deriving DecidableEq, Inhabited

structure SetRelayCommand where
  num : UInt8
  state : UInt8
  deriving DecidableEq, Inhabited

structure RepeatRelayCommand where
  num : UInt8
  repeatCount : Int16
  cycleTime : ℚ
  deriving DecidableEq, Inhabited

structure SetServoCommand where
  channel : UInt8
  pwm : UInt16
  deriving DecidableEq, Inhabited

structure RepeatServoCommand where
  channel : UInt8
  pwm : UInt16
  repeatCount : Int16
  cycleTime : ℚ
  deriving DecidableEq, Inhabited

structure MountControl where
  pitch : ℚ
  roll : ℚ
  yaw : ℚ
  deriving DecidableEq, Inhabited

structure DigicamConfigure where
  shootingMode : UInt8
  shutterSpeed : UInt16
  aperture : UInt8
  iso : UInt16
  exposureType : UInt8
  cmdId : UInt8
  engineCutoffTime : ℚ
  deriving DecidableEq, Inhabited

structure DigicamControl where
  session : UInt8
  zoomPos : UInt8
  zoomStep : Int8
  focusLock : UInt8
  shootingCmd : UInt8
  cmdId : UInt8
  deriving DecidableEq, Inhabited

structure GripperCommand where
  num : UInt8
  action : UInt8
  deriving DecidableEq, Inhabited

structure AltitudeWait where
  altitude : ℚ
  descentRate : ℚ
  wiggleTime : UInt8
  deriving DecidableEq, Inhabited

structure GuidedLimitsCommand where
  altMin : ℚ
  altMax : ℚ
  horizMax : ℚ
  deriving DecidableEq, Inhabited

structure NavigationDelayCommand where
  seconds : ℚ
  hourUtc : Int8
  minUtc : Int8
  secUtc : Int8
  deriving DecidableEq, Inhabited

structure DoEngineControl where
  startControl : Bool
  coldStart : Bool
  heightDelayCm : UInt16
  deriving DecidableEq, Inhabited

/-- The members of the union, of which a command uses one. -/
structure Content where
  jump : JumpCommand
  delaySeconds : ℚ
  distanceMeters : ℚ
  yaw : YawCommand
  speed : ChangeSpeedCommand
  relay : SetRelayCommand
  repeatRelay : RepeatRelayCommand
  servo : SetServoCommand
  repeatServo : RepeatServoCommand
  mountControl : MountControl
  digicamConfigure : DigicamConfigure
  digicamControl : DigicamControl
  camTriggDistMeters : ℚ
  gripper : GripperCommand
  guidedLimits : GuidedLimitsCommand
  altitudeWait : AltitudeWait
  doVtolTransitionTargetState : UInt8
  doEngineControl : DoEngineControl
  location : Location
  navDelay : NavigationDelayCommand
  deriving DecidableEq, Inhabited

/-- `Mission_Command`. -/
structure Command where
  index : UInt16
  id : UInt16
  p1 : UInt16
  content : Content
  deriving DecidableEq, Inhabited

def trunc (q : ℚ) : ℤ := q.num.tdiv q.den

-- A number outside the range of a field, which the source leaves undefined, keeps its lowest bits.
def toUint8 (q : ℚ) : UInt8 := .ofInt (trunc q)

def toUint16 (q : ℚ) : UInt16 := .ofInt (trunc q)

def toInt8 (q : ℚ) : Int8 := .ofInt (trunc q)

def toInt16 (q : ℚ) : Int16 := .ofInt (trunc q)

def toAlt (q : ℚ) : ℤ := (trunc q).bmod (2 ^ 24)

def lowByte (w : UInt16) : UInt8 := w.toUInt8

def highByte (w : UInt16) : UInt8 := (w >>> 8).toUInt8

/-- A flag as a number. -/
def bit (b : Bool) : ℚ := if b then 1 else 0

def checkLat (lat : ℤ) : Bool := |lat| ≤ 900000000

def checkLng (lng : ℤ) : Bool := |lng| ≤ 1800000000

def locationAltMaxM : ℚ := 83000

/-- Is it ArduPlane, and is there terrain data? -/
structure Build where
  plane : Bool
  terrain : Bool
  deriving DecidableEq

/-! ## From packets to commands -/

/-- What a case sets of a command that starts out as zeros. -/
structure Case where
  p1 : UInt16 := 0
  content : Content := default
  copyLocation : Bool := false

/-- All fields zero. -/
def zeroed : Content := default

/-- The cases of `mavlink_int_to_mission_cmd`. -/
def MavCmd.ofPacket (plane : Bool) (packet : Packet) : MavCmd → Case
  | .navWaypoint =>
    { copyLocation := true
      p1 :=
        if plane then
          let acp := toUint16 packet.param2
          let passby := toUint16 packet.param3
          -- limited to 255, so that the shift does not wrap
          min 0xFF passby <<< 8 ||| (min 0xFF acp &&& 0x00FF)
        else toUint16 packet.param1 }
  | .navLoiterUnlim =>
    { copyLocation := true
      p1 := toUint16 |packet.param3|
      content := { zeroed with
        location := { zeroed.location with loiterCcw := packet.param3 < 0 } } }
  | .navLoiterTurns =>
    let numTurns := toUint16 packet.param1
    let radiusM := toUint16 |packet.param3|
    { copyLocation := true
      p1 := radiusM <<< 8 ||| (numTurns &&& 0x00FF)
      content := { zeroed with
        location := { zeroed.location with
          loiterCcw := packet.param3 < 0
          loiterXtrack := packet.param4 > 0 } } }
  | .navLoiterTime =>
    { copyLocation := true
      p1 := toUint16 packet.param1
      content := { zeroed with
        location := { zeroed.location with
          loiterCcw := packet.param3 < 0
          loiterXtrack := packet.param4 > 0 } } }
  | .navReturnToLaunch => {}
  | .navLand => { copyLocation := true, p1 := toUint16 packet.param1 }
  | .navTakeoff => { copyLocation := true, p1 := toUint16 packet.param1 }
  | .navContinueAndChangeAlt => { copyLocation := true, p1 := toUint16 packet.param1 }
  | .navLoiterToAlt =>
    { copyLocation := true
      p1 := toUint16 |packet.param2|
      content := { zeroed with
        location := { zeroed.location with
          loiterCcw := packet.param2 < 0
          loiterXtrack := packet.param4 > 0 } } }
  | .navSplineWaypoint => { copyLocation := true, p1 := toUint16 packet.param1 }
  | .navGuidedEnable => { p1 := toUint16 packet.param1 }
  | .navDelay =>
    { content := { zeroed with
        navDelay :=
          ⟨packet.param1, toInt8 packet.param2, toInt8 packet.param3, toInt8 packet.param4⟩ } }
  | .conditionDelay => { content := { zeroed with delaySeconds := packet.param1 } }
  | .conditionDistance => { content := { zeroed with distanceMeters := packet.param1 } }
  | .conditionYaw =>
    { content := { zeroed with
        yaw := ⟨packet.param1, packet.param2, toInt8 packet.param3, toUint8 packet.param4⟩ } }
  | .doSetMode => { p1 := toUint16 packet.param1 }
  | .doJump =>
    { content := { zeroed with jump := ⟨toUint16 packet.param1, toInt16 packet.param2⟩ } }
  | .doChangeSpeed =>
    { content := { zeroed with speed := ⟨toUint8 packet.param1, packet.param2, packet.param3⟩ } }
  | .doSetHome => { copyLocation := true, p1 := toUint16 packet.param1 }
  | .doSetRelay =>
    { content := { zeroed with relay := ⟨toUint8 packet.param1, toUint8 packet.param2⟩ } }
  | .doRepeatRelay =>
    { content := { zeroed with
        repeatRelay := ⟨toUint8 packet.param1, toInt16 packet.param2, packet.param3⟩ } }
  | .doSetServo =>
    { content := { zeroed with servo := ⟨toUint8 packet.param1, toUint16 packet.param2⟩ } }
  | .doRepeatServo =>
    { content := { zeroed with
        repeatServo :=
          ⟨toUint8 packet.param1, toUint16 packet.param2, toInt16 packet.param3, packet.param4⟩ } }
  | .doLandStart => { copyLocation := true }
  | .doSetRoi => { copyLocation := true, p1 := toUint16 packet.param1 }
  | .doDigicamConfigure =>
    { content := { zeroed with
        digicamConfigure :=
          ⟨toUint8 packet.param1, toUint16 packet.param2, toUint8 packet.param3,
            toUint16 packet.param4, .ofInt packet.x, .ofInt packet.y, packet.z⟩ } }
  | .doDigicamControl =>
    { content := { zeroed with
        digicamControl :=
          ⟨toUint8 packet.param1, toUint8 packet.param2, toInt8 packet.param3,
            toUint8 packet.param4, .ofInt packet.x, .ofInt packet.y⟩ } }
  | .doMountControl =>
    { content := { zeroed with mountControl := ⟨packet.param1, packet.param2, packet.param3⟩ } }
  | .doSetCamTriggDist => { content := { zeroed with camTriggDistMeters := packet.param1 } }
  | .doFenceEnable => { p1 := toUint16 packet.param1 }
  | .doParachute => { p1 := toUint16 packet.param1 }
  | .doInvertedFlight => { p1 := toUint16 packet.param1 }
  | .doGripper =>
    { content := { zeroed with gripper := ⟨toUint8 packet.param1, toUint8 packet.param2⟩ } }
  | .doGuidedLimits =>
    { p1 := toUint16 packet.param1
      content := { zeroed with guidedLimits := ⟨packet.param2, packet.param3, packet.param4⟩ } }
  | .doAutotuneEnable => { p1 := toUint16 packet.param1 }
  | .navAltitudeWait =>
    { content := { zeroed with
        altitudeWait := ⟨packet.param1, packet.param2, toUint8 packet.param3⟩ } }
  | .navVtolTakeoff => { copyLocation := true }
  | .navVtolLand => { copyLocation := true }
  | .doVtolTransition =>
    { content := { zeroed with doVtolTransitionTargetState := toUint8 packet.param1 } }
  | .doSetReverse => { p1 := toUint16 packet.param1 }
  | .doEngineControl =>
    { content := { zeroed with
        doEngineControl :=
          ⟨packet.param1 > 0, packet.param2 > 0, toUint16 (packet.param3 * 100)⟩ } }
  | .navPayloadPlace => { copyLocation := true, p1 := toUint16 (packet.param1 * 100) }

/-- Copy the location of a packet with these altitude flags. -/
def Content.copyLocation (content : Content) (packet : Packet) (relativeAlt terrainAlt : Bool) :
    Content :=
  { content with
    location := { content.location with
      lat := packet.x
      lng := packet.y
      alt := toAlt (packet.z * 100)
      relativeAlt := relativeAlt
      terrainAlt := terrainAlt } }

/-- The location, if it is valid. -/
def checkedLocation (build : Build) (packet : Packet) (content : Content) :
    Except MissionResult Content :=
  if !checkLat packet.x then .error .invalidParam5X
  else if !checkLng packet.y then .error .invalidParam6Y
  else if |packet.z| ≥ locationAltMaxM then .error .invalidParam7
  else
    match packet.frame with
    | .mission | .global => .ok (content.copyLocation packet false false)
    | .globalRelativeAlt => .ok (content.copyLocation packet true false)
    | .globalTerrainAlt =>
      if build.terrain then .ok (content.copyLocation packet true true)
      else .error .unsupportedFrame
    | .other => .error .unsupportedFrame

def mavlinkIntToMissionCmd (build : Build) (packet : Packet) : Except MissionResult Command :=
  match MavCmd.ofCode packet.command with
  | none => .error (if packet.command = 0 then .invalid else .unsupported)
  | some c =>
    let case := c.ofPacket build.plane packet
    if case.copyLocation then
      (checkedLocation build packet case.content).map (⟨packet.seq, packet.command, case.p1, ·⟩)
    else .ok ⟨packet.seq, packet.command, case.p1, case.content⟩

/-! ## From commands to packets -/

/-- The cases of `mission_cmd_to_mavlink_int`, and whether the location is copied. -/
def MavCmd.toPacket (plane : Bool) (cmd : Command) (packet : Packet) : MavCmd → Packet × Bool
  | .navWaypoint =>
    (if plane then
      { packet with param2 := (lowByte cmd.p1).toNat, param3 := (highByte cmd.p1).toNat }
    else { packet with param1 := cmd.p1.toNat }, true)
  | .navLoiterUnlim =>
    let radius : ℚ := cmd.p1.toNat
    ({ packet with
      param3 := if cmd.content.location.loiterCcw then radius * -1 else radius }, true)
  | .navLoiterTurns =>
    let radius : ℚ := (highByte cmd.p1).toNat
    ({ packet with
      param1 := (lowByte cmd.p1).toNat
      param3 := if cmd.content.location.loiterCcw then -radius else radius
      param4 := bit cmd.content.location.loiterXtrack }, true)
  | .navLoiterTime =>
    ({ packet with
      param1 := cmd.p1.toNat
      param3 := if cmd.content.location.loiterCcw then -1 else 1
      param4 := bit cmd.content.location.loiterXtrack }, true)
  | .navReturnToLaunch => (packet, false)
  | .navLand => ({ packet with param1 := cmd.p1.toNat }, true)
  | .navTakeoff => ({ packet with param1 := cmd.p1.toNat }, true)
  | .navContinueAndChangeAlt => ({ packet with param1 := cmd.p1.toNat }, true)
  | .navLoiterToAlt =>
    let radius : ℚ := cmd.p1.toNat
    ({ packet with
      param2 := if cmd.content.location.loiterCcw then -radius else radius
      param4 := bit cmd.content.location.loiterXtrack }, true)
  | .navSplineWaypoint => ({ packet with param1 := cmd.p1.toNat }, true)
  | .navGuidedEnable => ({ packet with param1 := cmd.p1.toNat }, false)
  | .navDelay =>
    let d := cmd.content.navDelay
    ({ packet with
      param1 := d.seconds
      param2 := d.hourUtc.toInt
      param3 := d.minUtc.toInt
      param4 := d.secUtc.toInt }, false)
  | .conditionDelay => ({ packet with param1 := cmd.content.delaySeconds }, false)
  | .conditionDistance => ({ packet with param1 := cmd.content.distanceMeters }, false)
  | .conditionYaw =>
    let yaw := cmd.content.yaw
    ({ packet with
      param1 := yaw.angleDeg
      param2 := yaw.turnRateDps
      param3 := yaw.direction.toInt
      param4 := yaw.relativeAngle.toNat }, false)
  | .doSetMode => ({ packet with param1 := cmd.p1.toNat }, false)
  | .doJump =>
    ({ packet with
      param1 := cmd.content.jump.target.toNat
      param2 := cmd.content.jump.numTimes.toInt }, false)
  | .doChangeSpeed =>
    let speed := cmd.content.speed
    ({ packet with
      param1 := speed.speedType.toNat
      param2 := speed.targetMs
      param3 := speed.throttlePct }, false)
  | .doSetHome => ({ packet with param1 := cmd.p1.toNat }, true)
  | .doSetRelay =>
    ({ packet with
      param1 := cmd.content.relay.num.toNat
      param2 := cmd.content.relay.state.toNat }, false)
  | .doRepeatRelay =>
    let relay := cmd.content.repeatRelay
    ({ packet with
      param1 := relay.num.toNat
      param2 := relay.repeatCount.toInt
      param3 := relay.cycleTime }, false)
  | .doSetServo =>
    ({ packet with
      param1 := cmd.content.servo.channel.toNat
      param2 := cmd.content.servo.pwm.toNat }, false)
  | .doRepeatServo =>
    let servo := cmd.content.repeatServo
    ({ packet with
      param1 := servo.channel.toNat
      param2 := servo.pwm.toNat
      param3 := servo.repeatCount.toInt
      param4 := servo.cycleTime }, false)
  | .doLandStart => (packet, true)
  | .doSetRoi => ({ packet with param1 := cmd.p1.toNat }, true)
  | .doDigicamConfigure =>
    let configure := cmd.content.digicamConfigure
    ({ packet with
      param1 := configure.shootingMode.toNat
      param2 := configure.shutterSpeed.toNat
      param3 := configure.aperture.toNat
      param4 := configure.iso.toNat
      x := configure.exposureType.toNat
      y := configure.cmdId.toNat
      z := configure.engineCutoffTime }, false)
  | .doDigicamControl =>
    let control := cmd.content.digicamControl
    ({ packet with
      param1 := control.session.toNat
      param2 := control.zoomPos.toNat
      param3 := control.zoomStep.toInt
      param4 := control.focusLock.toNat
      x := control.shootingCmd.toNat
      y := control.cmdId.toNat }, false)
  | .doMountControl =>
    let mount := cmd.content.mountControl
    ({ packet with param1 := mount.pitch, param2 := mount.roll, param3 := mount.yaw }, false)
  | .doSetCamTriggDist => ({ packet with param1 := cmd.content.camTriggDistMeters }, false)
  | .doFenceEnable => ({ packet with param1 := cmd.p1.toNat }, false)
  | .doParachute => ({ packet with param1 := cmd.p1.toNat }, false)
  | .doInvertedFlight => ({ packet with param1 := cmd.p1.toNat }, false)
  | .doGripper =>
    ({ packet with
      param1 := cmd.content.gripper.num.toNat
      param2 := cmd.content.gripper.action.toNat }, false)
  | .doGuidedLimits =>
    let limits := cmd.content.guidedLimits
    ({ packet with
      param1 := cmd.p1.toNat
      param2 := limits.altMin
      param3 := limits.altMax
      param4 := limits.horizMax }, false)
  | .doAutotuneEnable => ({ packet with param1 := cmd.p1.toNat }, false)
  | .doSetReverse => ({ packet with param1 := cmd.p1.toNat }, false)
  | .navAltitudeWait =>
    let wait := cmd.content.altitudeWait
    ({ packet with
      param1 := wait.altitude
      param2 := wait.descentRate
      param3 := wait.wiggleTime.toNat }, false)
  | .navVtolTakeoff => (packet, true)
  | .navVtolLand => (packet, true)
  | .doVtolTransition =>
    ({ packet with param1 := cmd.content.doVtolTransitionTargetState.toNat }, false)
  | .doEngineControl =>
    let control := cmd.content.doEngineControl
    ({ packet with
      param1 := bit control.startControl
      param2 := bit control.coldStart
      param3 := control.heightDelayCm.toNat * (1 / 100) }, false)
  | .navPayloadPlace => ({ packet with param1 := cmd.p1.toNat / 100 }, true)

/-- Refused if the altitude above the terrain is not known. -/
def Location.toPacket (build : Build) (loc : Location) (packet : Packet) : Option Packet :=
  let packet := { packet with
    x := loc.lat
    y := loc.lng
    z := loc.alt / 100
    frame := if loc.relativeAlt then .globalRelativeAlt else .global }
  if loc.terrainAlt then
    if build.terrain ∧ loc.relativeAlt then
      some { packet with z := loc.alt * (1 / 100), frame := .globalTerrainAlt }
    else none
  else some packet

/-- What every packet gets. -/
def Packet.init (packet : Packet) (cmd : Command) : Packet :=
  { packet with
    seq := cmd.index
    command := cmd.id
    current := 0
    param1 := 0
    param2 := 0
    param3 := 0
    param4 := 0
    autocontinue := 1 }

def missionCmdToMavlinkInt (build : Build) (cmd : Command) (packet : Packet) : Option Packet :=
  match MavCmd.ofCode cmd.id with
  | none => none
  | some c =>
    let filled := c.toPacket build.plane cmd (packet.init cmd)
    if filled.2 then cmd.content.location.toPacket build filled.1 else some filled.1

end Tm4cPilot.MissionItem
