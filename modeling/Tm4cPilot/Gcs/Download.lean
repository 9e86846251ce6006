import Tm4cPilot.Gcs.Model
import Tm4cPilot.Mission.Resume
import Tm4cPilot.MissionItem.RoundTrip

/-!
# Downloading a mission

A ground station asks for the items one after the other. Each is read, converted and sent with a
mark that should tell whether it is the current command.
-/

namespace Tm4cPilot.Mission

open Param (ofBytes toInt Single)

namespace Content

section Fields

variable (content : Content) (offset : ℕ)

/-- A byte of the content. -/
def uint8At : UInt8 := content.bytes.getD offset 0

def uint16At : UInt16 := .ofNat (ofBytes ((content.bytes.drop offset).take 2))

def int8At : Int8 := .ofInt (toInt ((content.bytes.drop offset).take 1))

/-- Two signed bytes. -/
def int16At : Int16 := .ofInt (toInt ((content.bytes.drop offset).take 2))

/-- `float` gives the number that a bit pattern stands for. -/
def floatAt (float : Single → ℚ) : ℚ :=
  float (.ofNat (ofBytes ((content.bytes.drop offset).take 4)))

end Fields

/-- `Location` as it is packed. -/
def location (content : Content) : MissionItem.Location where
  relativeAlt := (content.uint8At 0).toNat.testBit 0
  loiterCcw := (content.uint8At 0).toNat.testBit 2
  terrainAlt := (content.uint8At 0).toNat.testBit 3
  originAlt := (content.uint8At 0).toNat.testBit 4
  loiterXtrack := (content.uint8At 0).toNat.testBit 5
  alt := toInt ((content.bytes.drop 1).take 3)
  lat := content.lat
  lng := content.lng

/-- The union members of the bytes. -/
def members (float : Single → ℚ) (content : Content) : MissionItem.Content where
  jump := ⟨content.uint16At 0, content.int16At 2⟩
  delaySeconds := content.floatAt 0 float
  distanceMeters := content.floatAt 0 float
  yaw := ⟨content.floatAt 0 float, content.floatAt 4 float, content.int8At 8, content.uint8At 9⟩
  speed := ⟨content.uint8At 0, content.floatAt 1 float, content.floatAt 5 float⟩
  relay := ⟨content.uint8At 0, content.uint8At 1⟩
  repeatRelay := ⟨content.uint8At 0, content.int16At 1, content.floatAt 3 float⟩
  servo := ⟨content.uint8At 0, content.uint16At 1⟩
  repeatServo :=
    ⟨content.uint8At 0, content.uint16At 1, content.int16At 3, content.floatAt 5 float⟩
  mountControl := ⟨content.floatAt 0 float, content.floatAt 4 float, content.floatAt 8 float⟩
  digicamConfigure :=
    ⟨content.uint8At 0, content.uint16At 1, content.uint8At 3, content.uint16At 4,
      content.uint8At 6, content.uint8At 7, content.floatAt 8 float⟩
  digicamControl :=
    ⟨content.uint8At 0, content.uint8At 1, content.int8At 2, content.uint8At 3,
      content.uint8At 4, content.uint8At 5⟩
  camTriggDistMeters := content.floatAt 0 float
  gripper := ⟨content.uint8At 0, content.uint8At 1⟩
  guidedLimits := ⟨content.floatAt 0 float, content.floatAt 4 float, content.floatAt 8 float⟩
  altitudeWait := ⟨content.floatAt 0 float, content.floatAt 4 float, content.uint8At 8⟩
  doVtolTransitionTargetState := content.uint8At 0
  doEngineControl := ⟨content.uint8At 0 ≠ 0, content.uint8At 1 ≠ 0, content.uint16At 2⟩
  location := content.location
  navDelay :=
    ⟨content.floatAt 0 float, content.int8At 4, content.int8At 5, content.int8At 6⟩

end Content

/-- The command with its members. -/
def Command.toItem (float : Single → ℚ) (cmd : Command) : MissionItem.Command :=
  ⟨.ofNat cmd.index, cmd.id, cmd.p1, cmd.content.members float⟩

end Tm4cPilot.Mission

namespace Tm4cPilot.Gcs

open Mission (CommandList State Reached Created indexNone)
open MissionItem (MavCmd Build Packet Frame Location missionCmdToMavlinkInt)
open Param (Single)

/-! ## Sending an item -/

/-- `mavlink_mission_item_t` -/
structure FloatPacket where
  param1 : ℚ
  param2 : ℚ
  param3 : ℚ
  param4 : ℚ
  x : ℚ
  y : ℚ
  z : ℚ
  seq : UInt16
  command : UInt16
  frame : Frame
  current : UInt8
  autocontinue : UInt8
  deriving DecidableEq

/-- The packet before the conversion. -/
def zeroPacket : Packet := ⟨0, 0, 0, 0, 0, 0, 0, 0, 0, .global, 0, 0⟩

/-- `mission_cmd_to_mavlink`; camera commands have no position. -/
def toFloatPacket (mavCmd : Packet) : FloatPacket :=
  let scale : ℚ :=
    if mavCmd.command = MavCmd.doDigicamControl.code ∨
        mavCmd.command = MavCmd.doDigicamConfigure.code then 1
    else 1 / 10 ^ 7
  { param1 := mavCmd.param1
    param2 := mavCmd.param2
    param3 := mavCmd.param3
    param4 := mavCmd.param4
    x := mavCmd.x * scale
    y := mavCmd.y * scale
    z := mavCmd.z
    seq := mavCmd.seq
    command := mavCmd.command
    frame := mavCmd.frame
    current := mavCmd.current
    autocontinue := mavCmd.autocontinue }

def missionCmdToMavlink (build : Build) (cmd : MissionItem.Command) : Option FloatPacket :=
  (missionCmdToMavlinkInt build cmd zeroPacket).map toFloatPacket

inductive Reply where
  | missionItemInt (dest : Address) (packet : Packet)
  | missionItem (dest : Address) (packet : FloatPacket)
  | report (output : Output)
  deriving DecidableEq

/-- The two requests. -/
inductive RequestId where
  | missionRequestInt | missionRequest
  deriving DecidableEq

section Requests

variable (float : Single → ℚ) (build : Build) (l : CommandList) (s : State) (sender : Address)

/-- The answer to a failed request. -/
def missionItemSendFailed : List Reply := [.report (.missionAck sender .error)]

/-- The id of the command is compared with the index. -/
def currentMark (cmd : Mission.Command) : UInt8 := if cmd.id = .ofNat s.navCmd.index then 1 else 0

def handleMissionRequest (msgid : RequestId) (seq : UInt16) : List Reply :=
  match msgid with
  | .missionRequestInt =>
    match l.readCmd seq.toNat with
    | none => missionItemSendFailed sender
    | some cmd =>
      match missionCmdToMavlinkInt build (cmd.toItem float) zeroPacket with
      | none => missionItemSendFailed sender
      | some packet =>
        [.missionItemInt sender { packet with
          current := currentMark s cmd, autocontinue := 1, seq := seq, command := cmd.id }]
  | .missionRequest =>
    -- HOME can always be read
    if seq ≠ 0 ∧ seq.toNat ≥ l.total then
      .report (.missionCount sender l.total) :: missionItemSendFailed sender
    else
      match l.readCmd seq.toNat with
      | none => missionItemSendFailed sender
      | some cmd =>
        match missionCmdToMavlink build (cmd.toItem float) with
        | none => missionItemSendFailed sender
        | some packet =>
          [.missionItem sender { packet with
            current := currentMark s cmd, autocontinue := 1, seq := seq, command := cmd.id }]

end Requests

/-- The commands whose `x`, `y` and `z` are a position. -/
def hasLocation (c : MavCmd) : Bool :=
  c ∈ [.navWaypoint, .navLoiterUnlim, .navLoiterTurns, .navLoiterTime, .navLand, .navTakeoff,
    .navContinueAndChangeAlt, .navLoiterToAlt, .navSplineWaypoint, .navVtolTakeoff, .navVtolLand,
    .navPayloadPlace, .doSetHome, .doLandStart, .doSetRoi]

/-- The frame of a location. -/
def frameOf (loc : Location) : Frame :=
  if loc.terrainAlt then .globalTerrainAlt
  else if loc.relativeAlt then .globalRelativeAlt
  else .global

/-- The item for a command, with a position when it has one. -/
def itemOf (build : Build) (cmd : MissionItem.Command) (c : MavCmd) (mark : UInt8) : Packet :=
  let item := (c.toPacket build.plane cmd { zeroPacket with
    seq := cmd.index, command := cmd.id, current := mark, autocontinue := 1 }).1
  let loc := cmd.content.location
  if hasLocation c then
    { item with x := loc.lat, y := loc.lng, z := loc.alt / 100, frame := frameOf loc }
  else item

/-- There is such an item. -/
def IsItem (l : CommandList) (i : ℕ) : Prop := i = 0 ∨ i < l.total

/-- Requests get the stored commands, and only item `k` the mark. -/
def Downloads (float : Single → ℚ) (build : Build) (l : CommandList) (s : State) (sender : Address)
    (k : ℕ) : Prop :=
  IsItem l k ∧ ∀ i, IsItem l i → ∃ c, MavCmd.ofCode (l.cmdAt i).id = some c ∧
    let item := itemOf build ((l.cmdAt i).toItem float) c (if i = k then 1 else 0)
    handleMissionRequest float build l s sender .missionRequestInt (.ofNat i) =
        [.missionItemInt sender item] ∧
      handleMissionRequest float build l s sender .missionRequest (.ofNat i) =
        [.missionItem sender (toFloatPacket item)]

/-- The altitude can be told. -/
def AltKnown (build : Build) (loc : Location) : Prop :=
  loc.terrainAlt = true → build.terrain = true ∧ loc.relativeAlt = true
deriving Decidable

/-- The id has a case, and the altitude is known. -/
def Sendable (build : Build) (cmd : Mission.Command) : Prop :=
  ∃ c, MavCmd.ofCode cmd.id = some c ∧ (hasLocation c = true → AltKnown build cmd.content.location)

/-! ## What is sent -/

section Conversion

variable {build : Build} {cmd : MissionItem.Command} {c : MavCmd}

theorem toPacket_snd (plane : Bool) (cmd : MissionItem.Command) (given : Packet) (c : MavCmd) :
    (c.toPacket plane cmd given).2 = hasLocation c := by
  cases c <;> rfl

theorem toPacket_headed (plane : Bool) (cmd : MissionItem.Command) (given : Packet) (c : MavCmd)
    (seq command : UInt16) (current autocontinue : UInt8) :
    (c.toPacket plane cmd { given with
        seq := seq, command := command, current := current, autocontinue := autocontinue }).1 =
      { (c.toPacket plane cmd given).1 with
        seq := seq, command := command, current := current, autocontinue := autocontinue } := by
  cases c with
  | navWaypoint => cases plane <;> rfl
  | _ => rfl

theorem itemOf_marked (build : Build) (cmd : MissionItem.Command) (c : MavCmd) (mark : UInt8) :
    { itemOf build cmd c 0 with
      current := mark, autocontinue := 1, seq := cmd.index, command := cmd.id } =
      itemOf build cmd c mark := by
  simp only [itemOf, toPacket_headed]
  split_ifs <;> rfl

theorem current_itemOf (build : Build) (cmd : MissionItem.Command) (c : MavCmd) (mark : UInt8) :
    (itemOf build cmd c mark).current = mark := by
  rw [← itemOf_marked]

theorem command_itemOf (build : Build) (cmd : MissionItem.Command) (c : MavCmd) (mark : UInt8) :
    (itemOf build cmd c mark).command = cmd.id := by
  rw [← itemOf_marked]

theorem location_toPacket_eq (loc : Location) (filled : Packet) :
    loc.toPacket build filled =
      if AltKnown build loc then
        some { filled with x := loc.lat, y := loc.lng, z := loc.alt / 100, frame := frameOf loc }
      else none := by
  cases terrain : loc.terrainAlt with
  | false => simp [Location.toPacket, AltKnown, frameOf, terrain]
  | true =>
    by_cases known : build.terrain = true ∧ loc.relativeAlt = true
    · simp [Location.toPacket, AltKnown, frameOf, terrain, known, div_eq_mul_inv]
    · simp [Location.toPacket, AltKnown, terrain, known]

theorem missionCmdToMavlinkInt_eq (case : MavCmd.ofCode cmd.id = some c) :
    missionCmdToMavlinkInt build cmd zeroPacket =
      if hasLocation c = true → AltKnown build cmd.content.location then
        some (itemOf build cmd c 0)
      else none := by
  simp only [missionCmdToMavlinkInt, case, toPacket_snd, itemOf]
  cases located : hasLocation c with
  | true =>
    rw [if_pos rfl, location_toPacket_eq]
    simp only [forall_const, if_true]
    rfl
  | false => simp [Packet.init, zeroPacket]

end Conversion

section Requests

variable {float : Single → ℚ} {build : Build} {l : CommandList} {s : State} {sender : Address}
  {i : ℕ}

theorem missionCmdToMavlinkInt_of_not_sendable {cmd : Mission.Command}
    (refused : ¬Sendable build cmd) :
    missionCmdToMavlinkInt build (cmd.toItem float) zeroPacket = none := by
  cases case : MavCmd.ofCode cmd.id with
  | none => simp only [missionCmdToMavlinkInt, Mission.Command.toItem, case]
  | some c =>
    refine (missionCmdToMavlinkInt_eq case).trans (if_neg fun known => ?_)
    exact refused ⟨c, case, known⟩

theorem readCmd_of_isItem (item : IsItem l i) : l.readCmd i = some (l.cmdAt i) := by
  obtain rfl | inside := item
  · simp [CommandList.readCmd, CommandList.cmdAt]
  · exact Mission.readCmd_of_lt inside

theorem toNat_of_isItem (item : IsItem l i) : (UInt16.ofNat i).toNat = i := by
  have small := l.small
  rw [UInt16.toNat_ofNat', Nat.mod_eq_of_lt]
  obtain rfl | inside := item <;> omega

theorem not_outside_of_isItem (item : IsItem l i) :
    ¬(UInt16.ofNat i ≠ 0 ∧ (UInt16.ofNat i).toNat ≥ l.total) := by
  rw [toNat_of_isItem item]
  rintro ⟨behind, outside⟩
  obtain rfl | inside := item
  · exact behind rfl
  · omega

theorem handleMissionRequest_of_not_sendable (item : IsItem l i)
    (refused : ¬Sendable build (l.cmdAt i)) (msgid : RequestId) :
    handleMissionRequest float build l s sender msgid (.ofNat i) =
      missionItemSendFailed sender := by
  cases msgid with
  | missionRequestInt =>
    simp only [handleMissionRequest, toNat_of_isItem item, readCmd_of_isItem item,
      missionCmdToMavlinkInt_of_not_sendable refused]
  | missionRequest =>
    simp only [handleMissionRequest, if_neg (not_outside_of_isItem item)]
    simp only [toNat_of_isItem item, readCmd_of_isItem item, missionCmdToMavlink,
      missionCmdToMavlinkInt_of_not_sendable refused, Option.map_none]

theorem handleMissionRequest_of_sendable (item : IsItem l i) {c : MavCmd}
    (case : MavCmd.ofCode (l.cmdAt i).id = some c)
    (known : hasLocation c = true → AltKnown build (l.cmdAt i).content.location) :
    let sent := itemOf build ((l.cmdAt i).toItem float) c (currentMark s (l.cmdAt i))
    handleMissionRequest float build l s sender .missionRequestInt (.ofNat i) =
        [.missionItemInt sender sent] ∧
      handleMissionRequest float build l s sender .missionRequest (.ofNat i) =
        [.missionItem sender (toFloatPacket sent)] := by
  have converted : missionCmdToMavlinkInt build ((l.cmdAt i).toItem float) zeroPacket =
      some (itemOf build ((l.cmdAt i).toItem float) c 0) :=
    (missionCmdToMavlinkInt_eq case).trans (if_pos known)
  have index : ((l.cmdAt i).toItem float).index = .ofNat i := by
    rw [Mission.Command.toItem, Mission.index_cmdAt]
  rw [← itemOf_marked, index]
  constructor
  · simp only [handleMissionRequest, toNat_of_isItem item, readCmd_of_isItem item, converted]
    rfl
  · simp only [handleMissionRequest, if_neg (not_outside_of_isItem item)]
    simp only [toNat_of_isItem item, readCmd_of_isItem item, missionCmdToMavlink, converted,
      Option.map_some, toFloatPacket, command_itemOf]
    rfl

theorem currentMark_eq_iff (small : s.navCmd.index < 2 ^ 16) (cmd : Mission.Command) :
    currentMark s cmd = (if i = s.navCmd.index then 1 else 0) ↔
      (cmd.id.toNat = s.navCmd.index ↔ i = s.navCmd.index) := by
  have same : cmd.id = .ofNat s.navCmd.index ↔ cmd.id.toNat = s.navCmd.index := by
    rw [← UInt16.toNat_inj, UInt16.toNat_ofNat', Nat.mod_eq_of_lt small]
  rw [currentMark, ← same]
  split_ifs with matches_id here here <;> simp [matches_id, here]

theorem answered_iff (item : IsItem l i) (mark : UInt8) :
    (∃ c, MavCmd.ofCode (l.cmdAt i).id = some c ∧
      let wanted := itemOf build ((l.cmdAt i).toItem float) c mark
      handleMissionRequest float build l s sender .missionRequestInt (.ofNat i) =
          [.missionItemInt sender wanted] ∧
        handleMissionRequest float build l s sender .missionRequest (.ofNat i) =
          [.missionItem sender (toFloatPacket wanted)]) ↔
      Sendable build (l.cmdAt i) ∧ currentMark s (l.cmdAt i) = mark := by
  constructor
  · rintro ⟨c, case, answer, -⟩
    have sendable : Sendable build (l.cmdAt i) := by
      by_contra refused
      rw [handleMissionRequest_of_not_sendable item refused] at answer
      cases answer
    obtain ⟨c', case', known⟩ := sendable
    obtain rfl := Option.some.inj (case.symm.trans case')
    refine ⟨⟨c, case, known⟩, ?_⟩
    rw [(handleMissionRequest_of_sendable item case known).1] at answer
    have packets := (Reply.missionItemInt.inj (List.cons.inj answer).1).2
    have marks := congrArg Packet.current packets
    rwa [current_itemOf, current_itemOf] at marks
  · rintro ⟨⟨c, case, known⟩, rfl⟩
    exact ⟨c, case, handleMissionRequest_of_sendable item case known⟩

/-- The download is right exactly when every item can be sent and the id of the active command is
its index. -/
theorem downloads_iff (float : Single → ℚ) (build : Build) (l : CommandList) (s : State)
    (sender : Address) (reached : Reached l s) (active : s.navCmdLoaded = true) :
    Downloads float build l s sender s.navCmd.index ↔
      ∀ i, IsItem l i → Sendable build (l.cmdAt i) ∧
        ((l.cmdAt i).id.toNat = s.navCmd.index ↔ i = s.navCmd.index) := by
  have inside : s.navCmd.index < l.total := (reached.coherent active).1
  have small : s.navCmd.index < 2 ^ 16 := by
    have := l.small
    omega
  rw [Downloads, and_iff_right (.inr inside)]
  refine forall₂_congr fun i item => ?_
  rw [answered_iff item, currentMark_eq_iff small]

end Requests

/-- The value of a `float`. -/
def singleValue (w : Single) : ℚ := w.toRat.getD 0

/-- A mission before its start. -/
def newMission : State :=
  { (default : State) with
    navCmd := { (default : Mission.Command) with index := indexNone }
    doCmd := { (default : Mission.Command) with index := indexNone }
    prevNavCmdIndex := indexNone
    prevNavCmdWpIndex := indexNone }

theorem created_newMission : Created newMission := ⟨rfl, rfl, rfl, rfl, rfl, rfl, rfl, rfl⟩

/-- The last command has id 17. -/
def loiterLast : CommandList :=
  .ofList (List.replicate 16 ⟨16, 0, .zero⟩ ++ [⟨17, 0, .zero⟩]) (by decide)

/-- It is the current one. -/
def loitering : State := ((Mission.setCurrentCmd 2 loiterLast newMission 17).getD default).2

theorem downloads_iff_loitering :
    Reached loiterLast loitering ∧ loitering.navCmdLoaded = true ∧
      Downloads singleValue ⟨false, true⟩ loiterLast loitering ⟨255, 190⟩ 17 := by
  have set : Mission.setCurrentCmd 2 loiterLast newMission 17 = some (true, loitering) := by
    decide +kernel
  have reached : Reached loiterLast loitering := .setCurrentCmd (.created created_newMission) set
  have active : loitering.navCmdLoaded = true := by decide +kernel
  refine ⟨reached, active, ?_⟩
  refine (downloads_iff singleValue ⟨false, true⟩ loiterLast loitering ⟨255, 190⟩ reached active).2
    fun i item => ?_
  have items : ∀ i < 18, (MavCmd.ofCode (loiterLast.cmdAt i).id).isSome = true ∧
      (loiterLast.cmdAt i).content.location.terrainAlt = false ∧
      ((loiterLast.cmdAt i).id.toNat = 17 ↔ i = 17) := by decide +kernel
  have below : i < 18 := by
    obtain rfl | inside := item
    · decide
    · exact inside
  obtain ⟨case, ground, agrees⟩ := items i below
  obtain ⟨c, case⟩ := Option.isSome_iff_exists.1 case
  exact ⟨⟨c, case, fun _ terrain => absurd (ground.symm.trans terrain) Bool.false_ne_true⟩, agrees⟩

/-- A single waypoint. -/
def oneWaypoint : CommandList := .ofList [⟨16, 0, .zero⟩] (by decide)

/-- While the only waypoint, at index 1, is active, it is sent without the mark. -/
theorem active_waypoint_not_marked :
    Reached oneWaypoint (Mission.start oneWaypoint newMission) ∧
      (Mission.start oneWaypoint newMission).navCmdLoaded = true ∧
      (Mission.start oneWaypoint newMission).navCmd.index = 1 ∧
      ¬Downloads singleValue ⟨false, true⟩ oneWaypoint (Mission.start oneWaypoint newMission)
        ⟨255, 190⟩ 1 := by
  refine ⟨.start (.created created_newMission), by decide +kernel, by decide +kernel, ?_⟩
  intro download
  obtain ⟨c, case, answer, -⟩ := download.2 1 (.inr (by decide))
  have waypoint : MavCmd.ofCode 16 = some .navWaypoint := rfl
  obtain rfl := Option.some.inj (waypoint.symm.trans case)
  revert answer
  decide +kernel

end Tm4cPilot.Gcs
