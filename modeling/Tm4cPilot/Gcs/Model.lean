import Tm4cPilot.Mission.Edit
import Tm4cPilot.MissionItem.Model

/-!
# Uploading a mission

Every link is a channel with its own upload; all work on the one mission. A channel that is
receiving asks for the items one after the other, takes only the one it asks for and stores it at
once.
-/

namespace Tm4cPilot.Gcs

open Mission (Plan Command Slot doJump numCommandsMax)
open MissionItem (MissionResult)
open StorageManager (Layout)

/-- A system and a component. -/
structure Address where
  sysid : ℕ
  compid : ℕ
  deriving DecidableEq, Inhabited

inductive Severity where
  | warning | info
  deriving DecidableEq

inductive Output where
  | missionAck (dest : Address) (result : MissionResult)
  | missionCount (dest : Address) (count : ℕ)
  | missionRequest (dest : Address) (seq : ℕ)
  | text (severity : Severity) (text : String)
  deriving DecidableEq

/-- An item with its conversion; an id above 255 uses only the first byte. -/
structure Item where
  seq : ℕ
  current : ℕ
  result : MissionResult
  cmd : Command
  storable : result = .accepted → cmd.Storable

inductive Message where
  | missionCount (count : ℕ)
  /-- `guided` is the answer of the vehicle to a guided request, and `space` says whether the link
  has room for a message. -/
  | missionItem (item : Item) (guided space : Bool)
  | missionClearAll
  | missionRequestList
  | missionWritePartialList (startIndex endIndex : ℤ)

/-! ## Channels -/

/-- The variables of a link. -/
structure Channel where
  initialised : Bool
  waypointReceiving : Bool
  waypointRequestI : ℕ
  waypointRequestLast : ℕ
  waypointDest : Address
  deriving DecidableEq, Inhabited

/-- What a handler leaves, sends and answers. -/
structure Handled where
  channel : Channel
  mission : Plan
  sent : List Output
  complete : Bool := false

/-- The deferred request. -/
def queuedWaypointSend (ch : Channel) : List Output :=
  if ch.initialised ∧ ch.waypointReceiving ∧ ch.waypointRequestI ≤ ch.waypointRequestLast then
    [.missionRequest ch.waypointDest ch.waypointRequestI]
  else []

section Handlers

variable (layout : Layout) (sender : Address) (ch : Channel) (m : Plan)

def handleMissionRequestList : Handled :=
  { channel := { ch with waypointReceiving := false, waypointDest := sender }
    mission := m
    sent := [.missionCount sender m.numCommands] }

def handleMissionCount (count : ℕ) : Handled :=
  if count > numCommandsMax layout then
    { channel := ch, mission := m, sent := [.missionAck sender .noSpace] }
  else
    { channel := { ch with
        waypointReceiving := true
        waypointRequestI := 0
        waypointRequestLast := count }
      mission := m.truncate count
      sent := [] }

def handleMissionClearAll : Handled :=
  let cleared := m.clear
  { channel := ch
    mission := cleared.2
    sent := [.missionAck sender (if cleared.1 then .accepted else .error)] }

/-- A 16 bit index as an `unsigned`. -/
def unsigned (index : ℤ) : ℕ := (index % 2 ^ 32).toNat

/-- The range makes no sense. -/
def partialRejected (startIndex endIndex : ℤ) : Bool :=
  unsigned startIndex > m.numCommands ∨ unsigned endIndex > m.numCommands ∨ endIndex < startIndex

def handleMissionWritePartialList (startIndex endIndex : ℤ) : Handled :=
  if partialRejected m startIndex endIndex then
    { channel := ch, mission := m, sent := [.text .warning "Flight plan update rejected"] }
  else
    { channel := { ch with
        waypointReceiving := true
        waypointRequestI := startIndex.toNat
        waypointRequestLast := endIndex.toNat }
      mission := m
      sent := [] }

/-- The jump leads out of the mission. -/
def jumpRejected (cmd : Slot) : Bool :=
  cmd.id = doJump ∧
    ((cmd.content.jumpTarget ≥ m.numCommands ∧ cmd.content.jumpTarget ≥ ch.waypointRequestLast) ∨
      cmd.content.jumpTarget = 0)

/-- Replace or add a command. -/
def storeItem (seq : ℕ) (cmd : Command) : Except MissionResult Plan :=
  if seq < m.numCommands then
    let replaced := m.replaceCmd layout seq cmd
    if replaced.1 then .ok replaced.2 else .error .error
  else if seq = m.numCommands then
    let added := m.addCmd layout cmd
    if added.1 then .ok added.2.2 else .error .error
  else .error .error

/-- The mission with the item, or the answer to it. -/
def checkItem (item : Item) (guided : Bool) : Except MissionResult Plan :=
  if item.result ≠ .accepted then .error item.result
  else if item.current = 2 then .error (if guided then .accepted else .error)
  else if item.current = 3 then .error .accepted
  else if !ch.waypointReceiving then .error .error
  else if item.seq ≠ ch.waypointRequestI then .error .invalidSequence
  else if jumpRejected ch m item.cmd.toSlot then .error .error
  else storeItem layout m item.seq item.cmd

def handleMissionItem (item : Item) (guided space : Bool) : Handled :=
  match checkItem layout ch m item guided with
  | .error result => { channel := ch, mission := m, sent := [.missionAck sender result] }
  | .ok mission =>
    let next := { ch with waypointRequestI := ch.waypointRequestI + 1 }
    if next.waypointRequestI ≥ next.waypointRequestLast then
      { channel := { next with waypointReceiving := false }
        mission := mission
        sent := [.missionAck sender .accepted, .text .info "Flight plan received"]
        complete := true }
    else
      { channel := next
        mission := mission
        sent := if space then queuedWaypointSend next else [] }

/-- The handler of a message. -/
def handleMessage : Message → Handled
  | .missionCount count => handleMissionCount layout sender ch m count
  | .missionItem item guided space => handleMissionItem layout sender ch m item guided space
  | .missionClearAll => handleMissionClearAll sender ch m
  | .missionRequestList => handleMissionRequestList sender ch m
  | .missionWritePartialList startIndex endIndex =>
    handleMissionWritePartialList ch m startIndex endIndex

end Handlers

variable {ι : Type} [DecidableEq ι]

/-- The channels and the mission. -/
structure Vehicle (ι : Type) where
  channels : ι → Channel
  mission : Plan

/-- A message, a deferred request, a timeout or a mission step. -/
inductive Event (ι : Type) where
  | message (c : ι) (sender : Address) (message : Message)
  | nextWaypoint (c : ι)
  | receiveTimeout (c : ι)
  | fly (exec : Mission.State)

namespace Vehicle

variable (layout : Layout) (v : Vehicle ι)

def step : Event ι → Vehicle ι
  | .message c sender message =>
    let h := handleMessage layout sender (v.channels c) v.mission message
    ⟨Function.update v.channels c h.channel, h.mission⟩
  | .nextWaypoint _ => v
  | .receiveTimeout c =>
    { v with
      channels := Function.update v.channels c { v.channels c with waypointReceiving := false } }
  | .fly exec => { v with mission := { v.mission with exec := exec } }

/-- What an event makes the vehicle send on channel `c`. -/
def sent (c : ι) : Event ι → List Output
  | .message d sender message =>
    if d = c then (handleMessage layout sender (v.channels c) v.mission message).sent else []
  | .nextWaypoint d => if d = c then queuedWaypointSend (v.channels c) else []
  | .receiveTimeout _ | .fly _ => []

/-- Does an event finish the upload on channel `c`? -/
def finishes (c : ι) : Event ι → Bool
  | .message d sender message =>
    d = c && (handleMessage layout sender (v.channels c) v.mission message).complete
  | .nextWaypoint _ | .receiveTimeout _ | .fly _ => false

end Vehicle

end Tm4cPilot.Gcs
