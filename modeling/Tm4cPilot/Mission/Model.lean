import Tm4cPilot.Lib.Loop
import Tm4cPilot.Lib.Run
import Tm4cPilot.Param.Log

/-!
# The mission

A mission has one active navigation command and at most one active do command. Both move on by
`get_next_cmd`, which follows the DO_JUMP commands and counts the jumps. The callbacks appear in a
log, the newest first.
-/

namespace Tm4cPilot.Mission

open Param (ofBytes toBytes toInt)

/-- The union `Content`, as its raw bytes. -/
structure Content where
  bytes : List UInt8
  length_bytes : bytes.length = 12
  deriving DecidableEq

namespace Content

/-- The target of a DO_JUMP. -/
def jumpTarget (content : Content) : ℕ := ofBytes (content.bytes.take 2)

/-- How often it is taken. -/
def jumpNumTimes (content : Content) : ℤ := toInt ((content.bytes.drop 2).take 2)

/-- The latitude, behind the options and a 24 bit altitude. -/
def lat (content : Content) : ℤ := toInt ((content.bytes.drop 4).take 4)

/-- The longitude of a location. -/
def lng (content : Content) : ℤ := toInt (content.bytes.drop 8)

/-- All bytes zero. -/
def zero : Content := ⟨List.replicate 12 0, rfl⟩

instance : Inhabited Content := ⟨zero⟩

/-- The content of a DO_JUMP. -/
def jump (target : ℕ) (numTimes : ℤ) : Content :=
  ⟨toBytes 2 target ++ toBytes 2 numTimes ++ List.replicate 8 0, by simp⟩

end Content

/-- A command without its position. -/
structure Slot where
  id : UInt16
  p1 : UInt16
  content : Content
  deriving DecidableEq, Inhabited

/-- `Mission_Command`: a command with its position in the list. -/
structure Command extends Slot where
  index : ℕ
  deriving DecidableEq, Inhabited

/-- `MAV_CMD_NAV_WAYPOINT`. -/
def navWaypoint : UInt16 := 16

/-- `MAV_CMD_NAV_LAST`. -/
def navLast : UInt16 := 95

/-- `MAV_CMD_DO_JUMP`. -/
def doJump : UInt16 := 177

/-- `AP_MISSION_CMD_INDEX_NONE`. -/
def indexNone : ℕ := 65535

/-- `AP_MISSION_FIRST_REAL_COMMAND`. -/
def firstRealCommand : ℕ := 1

def isNavCmd (cmd : Command) : Bool := cmd.id ≤ navLast

/-- The stored commands, with home as command 0. -/
structure CommandList where
  total : ℕ
  stored : ℕ → Slot
  home : Content
  small : total < 2 ^ 15

namespace CommandList

/-- `read_cmd_from_storage` on the list of commands. -/
def readCmd (l : CommandList) (index : ℕ) : Option Command :=
  if index ≥ l.total ∧ index ≠ 0 then none
  else if index = 0 then some ⟨⟨navWaypoint, 0, l.home⟩, 0⟩
  else some ⟨l.stored index, index⟩

/-- The commands behind the home position. -/
def ofList (cmds : List Slot) (h : cmds.length + 1 < 2 ^ 15) : CommandList :=
  ⟨cmds.length + 1, fun i => cmds.getD (i - 1) default, .zero, h⟩

end CommandList

/-- An entry of `_jump_tracking`. -/
structure Track where
  index : ℕ
  numTimesRun : ℤ
  deriving DecidableEq

/-- `AP_MISSION_JUMP_TIMES_MAX`. -/
def jumpTimesMax : ℤ := 32767

/-- The loop of `get_jump_times_run`; a new jump takes a free entry. -/
def timesRun : List Track → ℕ → ℤ × List Track
  | [], _ => (jumpTimesMax, [])
  | e :: es, i =>
    if e.index = i then (e.numTimesRun, e :: es)
    else if e.index = indexNone then (0, ⟨i, 0⟩ :: es)
    else ((timesRun es i).1, e :: (timesRun es i).2)

/-- The loop of `increment_jump_times_run`. -/
def incremented : List Track → ℕ → List Track
  | [], _ => []
  | e :: es, i =>
    if e.index = i then ⟨i, e.numTimesRun + 1⟩ :: es
    else if e.index = indexNone then ⟨i, 1⟩ :: es
    else e :: incremented es i

theorem length_timesRun (es : List Track) (i : ℕ) : (timesRun es i).2.length = es.length := by
  induction es with
  | nil => rfl
  | cons e es ih =>
    rw [timesRun]
    split_ifs <;> simp [ih]

theorem length_incremented (es : List Track) (i : ℕ) : (incremented es i).length = es.length := by
  induction es with
  | nil => rfl
  | cons e es ih =>
    rw [incremented]
    split_ifs <;> simp [ih]

/-- `_jump_tracking`, of `AP_MISSION_MAX_NUM_DO_JUMP_COMMANDS` entries. -/
structure JumpTracking where
  entries : List Track
  length_entries : entries.length = 15
  deriving DecidableEq

def initJumpTracking : JumpTracking := ⟨List.replicate 15 ⟨indexNone, 0⟩, rfl⟩

instance : Inhabited JumpTracking := ⟨initJumpTracking⟩

/-- The target is home or behind the list. -/
def CommandList.invalidTarget (l : CommandList) (cmd : Command) : Bool :=
  cmd.content.jumpTarget ≥ l.total ∨ cmd.content.jumpTarget = 0

def getJumpTimesRun (l : CommandList) (tracking : JumpTracking) (cmd : Command) :
    ℤ × JumpTracking :=
  if cmd.id ≠ doJump ∨ l.invalidTarget cmd then (jumpTimesMax, tracking)
  else
    ((timesRun tracking.entries cmd.index).1,
      ⟨(timesRun tracking.entries cmd.index).2,
        (length_timesRun _ _).trans tracking.length_entries⟩)

def incrementJumpTimesRun (tracking : JumpTracking) (cmd : Command) : JumpTracking :=
  if cmd.id ≠ doJump then tracking
  else
    ⟨incremented tracking.entries cmd.index,
      (length_incremented _ _).trans tracking.length_entries⟩

/-! ## Searching the list -/

/-- Take a jump or pass it. -/
def follow (l : CommandList) (increment : Bool) (tracking : JumpTracking) (cmd : Command) :
    ℕ × JumpTracking :=
  if cmd.content.jumpNumTimes = -1 then (cmd.content.jumpTarget, tracking)
  else
    let run := getJumpTimesRun l tracking cmd
    if run.1 < cmd.content.jumpNumTimes then
      (cmd.content.jumpTarget, if increment then incrementJumpTimesRun run.2 cmd else run.2)
    else (cmd.index + 1, run.2)

/-- The local variables of `get_next_cmd`. -/
structure Search where
  cmdIndex : ℕ
  jumpIndex : ℕ
  maxLoops : ℕ
  tracking : JumpTracking

/-- The loop of `get_next_cmd`. -/
def getNextCmdBody (l : CommandList) (increment : Bool) (v : Search) :
    (Option Command × JumpTracking) ⊕ Search :=
  if v.cmdIndex ≥ l.total then .inl (none, v.tracking)
  else
    match l.readCmd v.cmdIndex with
    | none => .inl (none, v.tracking)
    | some cmd =>
      if cmd.id = doJump then
        if v.maxLoops = 0 ∨ l.invalidTarget cmd ∨ (!increment ∧ v.jumpIndex = v.cmdIndex) then
          .inl (none, v.tracking)
        else
          let next := follow l increment v.tracking cmd
          .inr ⟨next.1, if v.jumpIndex = indexNone then v.cmdIndex else v.jumpIndex,
            v.maxLoops - 1, next.2⟩
      else .inl (some cmd, v.tracking)

/-- The variables with which `get_next_cmd` enters its loop. -/
def Search.start (startIndex : ℕ) (tracking : JumpTracking) : Search :=
  ⟨startIndex, indexNone, 64, tracking⟩

def getNextCmd (l : CommandList) (startIndex : ℕ) (increment : Bool) (tracking : JumpTracking) :
    Option Command × JumpTracking :=
  Loop.run (getNextCmdBody l increment) 65 (.start startIndex tracking)

/-- The loop of `get_next_nav_cmd`. -/
def getNextNavCmdBody (l : CommandList) (v : ℕ × JumpTracking) :
    (Option Command × JumpTracking) ⊕ (ℕ × JumpTracking) :=
  if v.1 ≥ l.total then .inl (none, v.2)
  else
    match getNextCmd l v.1 false v.2 with
    | (none, tracking) => .inl (none, tracking)
    | (some cmd, tracking) =>
      if isNavCmd cmd then .inl (some cmd, tracking) else .inr (v.1 + 1, tracking)

def getNextNavCmd (l : CommandList) (startIndex : ℕ) (tracking : JumpTracking) :
    Option Command × JumpTracking :=
  Loop.run (getNextNavCmdBody l) (l.total + 1) (startIndex, tracking)

def getNextDoCmd (l : CommandList) (startIndex : ℕ) (tracking : JumpTracking) :
    Option Command × JumpTracking :=
  if startIndex ≥ l.total then (none, tracking)
  else
    match getNextCmd l startIndex false tracking with
    | (none, tracking) => (none, tracking)
    | (some cmd, tracking) => (if isNavCmd cmd then none else some cmd, tracking)

inductive MissionState where
  | stopped | running | complete
  deriving DecidableEq, Inhabited

/-- The callbacks, and the searches of `advance_current_nav_cmd`. -/
inductive Event where
  | advance (tracking : JumpTracking)
  | found (cmd : Command)
  | start (cmd : Command)
  | verify (cmd : Command) (done : Bool)
  | complete
  deriving DecidableEq

/-- The variables of the mission. -/
structure State where
  state : MissionState
  navCmdLoaded : Bool
  doCmdLoaded : Bool
  doCmdAllDone : Bool
  navCmd : Command
  doCmd : Command
  prevNavCmdId : UInt16
  prevNavCmdIndex : ℕ
  prevNavCmdWpIndex : ℕ
  tracking : JumpTracking
  log : List Event
  deriving DecidableEq, Inhabited

namespace State

def emit (s : State) (event : Event) : State := { s with log := event :: s.log }

def complete (s : State) : State := { s with state := .complete }.emit .complete

/-- Load a navigation command. -/
def startNavCmd (s : State) (cmd : Command) : State :=
  { s with
    prevNavCmdId := s.navCmd.id
    prevNavCmdIndex := s.navCmd.index
    prevNavCmdWpIndex :=
      if cmd.content.lat = 0 ∧ cmd.content.lng = 0 then s.prevNavCmdWpIndex else s.navCmd.index
    navCmd := cmd
    navCmdLoaded := true }.emit (.start cmd)

/-- Load a do command. -/
def startDoCmd (s : State) (cmd : Command) : State :=
  { s with doCmd := cmd, doCmdLoaded := true }.emit (.start cmd)

/-- Forget the do command. -/
def stopDoCmd (s : State) : State :=
  { s with doCmd := { s.doCmd with index := indexNone }, doCmdLoaded := false, doCmdAllDone := false }

/-- Note that no do command is left. -/
def noteDoCmd (s : State) : State :=
  if s.doCmdLoaded then s else { s with doCmdAllDone := true }

end State

/-! ## Moving on -/

/-- The local variables of `advance_current_nav_cmd`. -/
structure Walk where
  cmdIndex : ℕ
  maxLoops : ℕ
  state : State

/-- The loop of `advance_current_nav_cmd`. -/
def advanceCurrentNavCmdBody (l : CommandList) (v : Walk) : (Bool × State) ⊕ Walk :=
  if v.state.navCmdLoaded then .inl (true, v.state.noteDoCmd)
  else
    match getNextCmd l v.cmdIndex true v.state.tracking with
    | (none, tracking) => .inl (false, { v.state with tracking := tracking })
    | (some cmd, tracking) =>
      let s := { v.state with tracking := tracking }.emit (.found cmd)
      if isNavCmd cmd then .inr ⟨cmd.index + 1, v.maxLoops, s.startNavCmd cmd⟩
      else if !s.doCmdLoaded then .inr ⟨cmd.index + 1, v.maxLoops, s.startDoCmd cmd⟩
      else if v.maxLoops = 0 then .inl (false, s)
      else .inr ⟨cmd.index + 1, v.maxLoops - 1, s⟩

/-- How `advance_current_nav_cmd` enters its loop. -/
def Walk.start (s : State) : Walk :=
  ⟨if s.navCmd.index = indexNone then firstRealCommand else s.navCmd.index + 1, 255,
    s.stopDoCmd.emit (.advance s.tracking)⟩

def advanceCurrentNavCmd (l : CommandList) (s : State) : Bool × State :=
  if s.state ≠ .running ∨ s.navCmdLoaded then (false, s)
  else Loop.run (advanceCurrentNavCmdBody l) 258 (.start s)

def advanceCurrentDoCmd (l : CommandList) (s : State) : State :=
  if s.state ≠ .running ∨ s.doCmdAllDone then s
  else
    let cmdIndex := if s.doCmd.index = indexNone then firstRealCommand else s.doCmd.index + 1
    if cmdIndex ≥ l.total then { s with doCmdAllDone := true }
    else
      match getNextDoCmd l cmdIndex s.tracking with
      | (some cmd, tracking) => { s with tracking := tracking }.startDoCmd cmd
      | (none, tracking) => { s with tracking := tracking, doCmdAllDone := true }

def reset (s : State) : State :=
  { s with
    navCmdLoaded := false
    doCmdLoaded := false
    doCmdAllDone := false
    navCmd := { s.navCmd with index := indexNone }
    doCmd := { s.doCmd with index := indexNone }
    prevNavCmdId := 0
    prevNavCmdIndex := indexNone
    prevNavCmdWpIndex := indexNone
    tracking := initJumpTracking }

def start (l : CommandList) (s : State) : State :=
  let advanced := advanceCurrentNavCmd l (reset { s with state := .running })
  if advanced.1 then advanced.2 else advanced.2.complete

/-- The part of `update` about the do command. -/
def updateDoCmd (l : CommandList) (verify : Command → Bool) (s : State) : State :=
  if !s.doCmdLoaded then advanceCurrentDoCmd l s
  else
    { s with doCmdLoaded := !verify s.doCmd }.emit (.verify s.doCmd (verify s.doCmd))

/-- The navigation command has verified. -/
def updateNext (l : CommandList) (verify : Command → Bool) (s : State) : State :=
  let advanced := advanceCurrentNavCmd l s
  if advanced.1 then updateDoCmd l verify advanced.2 else advanced.2.complete

def update (l : CommandList) (s : State) (verify : Command → Bool) : State :=
  if s.state ≠ .running ∨ l.total = 0 then s
  else if !s.navCmdLoaded ∨ s.navCmd.index = indexNone then updateNext l verify s
  else
    let verified := s.emit (.verify s.navCmd (verify s.navCmd))
    if verify s.navCmd then updateNext l verify { verified with navCmdLoaded := false }
    else updateDoCmd l verify verified

/-- The loop of both branches of `set_current_cmd`. -/
def setCurrentCmdBody (l : CommandList) (load : State → Command → State)
    (stop finish : State → Bool × State) (v : ℕ × State) : (Bool × State) ⊕ (ℕ × State) :=
  if v.2.navCmdLoaded then .inl (finish v.2)
  else
    match getNextCmd l v.1 true v.2.tracking with
    | (none, tracking) => .inl (stop { v.2 with tracking := tracking })
    | (some cmd, tracking) => .inr (cmd.index + 1, load { v.2 with tracking := tracking } cmd)

/-- Load into a stopped mission. -/
def loadStopped (s : State) (cmd : Command) : State :=
  if isNavCmd cmd then { s with navCmd := cmd, navCmdLoaded := true }
  else if s.doCmdLoaded then s
  else { s with doCmd := cmd, doCmdLoaded := true }

/-- Load into a running mission. -/
def loadRunning (s : State) (cmd : Command) : State :=
  if isNavCmd cmd then s.startNavCmd cmd
  else if s.doCmdLoaded then s
  else s.startDoCmd cmd

/-- The loop for a stopped mission. -/
def setStoppedBody (l : CommandList) : ℕ × State → (Bool × State) ⊕ (ℕ × State) :=
  setCurrentCmdBody l loadStopped
    (fun s => (false, { s with navCmd := { s.navCmd with index := indexNone } }))
    (fun s => (true, { s.noteDoCmd with state := .stopped }))

/-- The loop for a running mission. -/
def setRunningBody (l : CommandList) : ℕ × State → (Bool × State) ⊕ (ℕ × State) :=
  setCurrentCmdBody l loadRunning (fun s => (true, s.complete)) (fun s => (true, s.noteDoCmd))

/-- What `set_current_cmd` does before its loops. -/
def prepareCurrentCmd (s : State) (index : ℕ) : ℕ × State :=
  let s := { s.stopDoCmd with navCmdLoaded := false }
  if index = 0 ∨ s.state = .complete then
    (if index = 0 then 1 else index,
      { s with
        prevNavCmdId := 0
        prevNavCmdIndex := indexNone
        prevNavCmdWpIndex := indexNone
        tracking := initJumpTracking })
  else (index, s)

/-- `set_current_cmd`, with a bound for its loop. -/
def setCurrentCmd (fuel : ℕ) (l : CommandList) (s : State) (index : ℕ) : Option (Bool × State) :=
  if index ≥ l.total ∨ l.total = 1 then some (false, s)
  else
    Loop.exec (if s.state = .running then setRunningBody l else setStoppedBody l) fuel
      (prepareCurrentCmd s index)

end Tm4cPilot.Mission
