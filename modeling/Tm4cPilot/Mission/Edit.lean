import Tm4cPilot.Mission.Store

/-!
# Changing the mission

A command is added behind the last one or replaces another. The length of the list is kept apart
from the storage, so shortening it leaves the slots as they are.
-/

namespace Tm4cPilot.Mission

open StorageManager (Layout)

/-- `_cmd_total`, the storage and the state of the execution. -/
structure Plan where
  cmdTotal : ℕ
  storage : ℕ → UInt8
  exec : State
  deriving Inhabited

namespace Plan

def numCommands (m : Plan) : ℕ := m.cmdTotal

/-- `clear`, which a running mission refuses. -/
def clear (m : Plan) : Bool × Plan :=
  if m.exec.state = .running then (false, m)
  else
    (true, { m with
      cmdTotal := 0
      exec := { m.exec with
        navCmd := { m.exec.navCmd with index := indexNone }
        doCmd := { m.exec.doCmd with index := indexNone }
        navCmdLoaded := false
        doCmdLoaded := false } })

def truncate (m : Plan) (index : ℕ) : Plan :=
  if m.cmdTotal > index then { m with cmdTotal := index } else m

variable (layout : Layout)

def addCmd (m : Plan) (cmd : Command) : Bool × Command × Plan :=
  let written := writeCmdToStorage layout m.storage m.cmdTotal cmd.toSlot
  if written.1 then
    (true, { cmd with index := m.cmdTotal },
      { m with storage := written.2, cmdTotal := m.cmdTotal + 1 })
  else (false, cmd, m)

def replaceCmd (m : Plan) (index : ℕ) (cmd : Command) : Bool × Plan :=
  if index ≥ m.cmdTotal then (false, m)
  else
    let written := writeCmdToStorage layout m.storage index cmd.toSlot
    (written.1, { m with storage := written.2 })

end Plan

/-! ## Slots -/

/-- The commands of `m'` are the first ones of `m`. -/
structure Plan.Shortened (m m' : Plan) : Prop where
  storage : m'.storage = m.storage
  total : m'.cmdTotal ≤ m.cmdTotal

theorem Plan.Shortened.refl (m : Plan) : m.Shortened m := ⟨rfl, le_rfl⟩

theorem Plan.shortened_truncate (m : Plan) (index : ℕ) : m.Shortened (m.truncate index) := by
  unfold Plan.truncate
  split_ifs with longer
  · exact ⟨rfl, longer.le⟩
  · exact .refl m

theorem Plan.cmdTotal_truncate_le (m : Plan) (index : ℕ) : (m.truncate index).cmdTotal ≤ index := by
  unfold Plan.truncate
  split_ifs with longer
  · exact le_rfl
  · exact not_lt.1 longer

theorem Plan.shortened_clear (m : Plan) : m.Shortened m.clear.2 := by
  unfold Plan.clear
  split_ifs
  · exact .refl m
  · exact ⟨rfl, Nat.zero_le _⟩

/-- The id is not 0, and with a 16 bit id there are 10 bytes of content. -/
def Slot.Storable (cmd : Slot) : Prop :=
  1 ≤ cmd.id ∧ (¬cmd.id < 256 → cmd.content.bytes.drop 10 = [0, 0])

/-- Slot `i` holds the command. -/
def Stored (layout : Layout) (m : Plan) (i : ℕ) (cmd : Slot) : Prop :=
  i < numCommandsMax layout ∧ Memory.Holds (bytesOf layout m.storage) (4 + i * 15) cmd.bytes

variable {layout : Layout} {m : Plan} {i : ℕ} {cmd : Slot}

theorem Stored.of_storage_eq {m' : Plan} (h : Stored layout m i cmd) (same : m'.storage = m.storage) :
    Stored layout m' i cmd := by
  unfold Stored
  rw [same]
  exact h

/-- The mission after a write to slot `seq`. -/
def Plan.wrote (layout : Layout) (m : Plan) (seq : ℕ) (cmd : Slot) : Plan :=
  { m with
    storage := (writeCmdToStorage layout m.storage seq cmd).2
    cmdTotal := max m.cmdTotal (seq + 1) }

variable {seq : ℕ}

theorem stored_wrote (room : seq < numCommandsMax layout) (m : Plan) (cmd : Slot) :
    Stored layout (m.wrote layout seq cmd) seq cmd :=
  ⟨room, holds_writeCmdToStorage m.storage room cmd⟩

theorem bytesOf_wrote (room : seq < numCommandsMax layout)
    (inside : i < numCommandsMax layout) (different : i ≠ seq) (m : Plan) (other : Slot) {a : ℕ}
    (first : 4 + i * 15 ≤ a) (last : a < 4 + i * 15 + 15) :
    bytesOf layout (m.wrote layout seq other).storage a = bytesOf layout m.storage a := by
  obtain ⟨-, fits⟩ := posInStorage_of_lt inside
  apply (bytesOf_writeCmdToStorage room other (by omega)).trans
  apply Memory.writeBlock_apply_out
  rw [other.length_bytes]
  omega

theorem Stored.wrote (h : Stored layout m i cmd) (room : seq < numCommandsMax layout)
    (different : i ≠ seq) (other : Slot) : Stored layout (m.wrote layout seq other) i cmd := by
  refine ⟨h.1, h.2.congr fun a first last => ?_⟩
  rw [cmd.length_bytes] at last
  exact bytesOf_wrote room h.1 different m other first last

theorem writeCmdToStorage_fst (layout : Layout) (storage : ℕ → UInt8) (seq : ℕ) (cmd : Slot) :
    (writeCmdToStorage layout storage seq cmd).1 = decide (seq < numCommandsMax layout) := by
  unfold writeCmdToStorage
  split_ifs with full
  · exact (decide_eq_false (not_lt.2 full)).symm
  · exact (decide_eq_true (not_le.1 full)).symm

theorem replaceCmd_eq_wrote (below : seq < m.cmdTotal)
    (room : seq < numCommandsMax layout) (cmd : Command) :
    m.replaceCmd layout seq cmd = (true, m.wrote layout seq cmd.toSlot) := by
  rw [Plan.replaceCmd, if_neg (by omega), Plan.wrote, max_eq_left below]
  simp only [writeCmdToStorage_fst, decide_eq_true room]

theorem addCmd_eq_wrote (room : m.cmdTotal < numCommandsMax layout) (cmd : Command) :
    m.addCmd layout cmd = (true, { cmd with index := m.cmdTotal },
      m.wrote layout m.cmdTotal cmd.toSlot) := by
  rw [Plan.addCmd, Plan.wrote, max_eq_right (Nat.le_succ _)]
  simp only [writeCmdToStorage_fst, decide_eq_true room, if_true]

theorem replaceCmd_full (full : numCommandsMax layout ≤ seq) (cmd : Command) :
    (m.replaceCmd layout seq cmd).1 = false := by
  unfold Plan.replaceCmd
  split_ifs
  · rfl
  · exact (writeCmdToStorage_fst _ _ _ _).trans (decide_eq_false (not_lt.2 full))

theorem addCmd_full (full : numCommandsMax layout ≤ m.cmdTotal) (cmd : Command) :
    (m.addCmd layout cmd).1 = false := by
  simp [Plan.addCmd, writeCmdToStorage_fst, not_lt.2 full]

theorem Content.zero_over_take {content : Content} (zeros : content.bytes.drop 10 = [0, 0]) :
    Content.zero.over (content.bytes.take 10) = content := by
  obtain ⟨bytes, length⟩ := content
  have split : bytes.take 10 ++ [0, 0] = bytes := by
    rw [← zeros]
    exact List.take_append_drop 10 bytes
  have taken : (bytes.take 10).length = 10 := by simp [length]
  simp only [Content.over, Content.zero, Content.mk.injEq]
  rw [taken, show (List.replicate 12 (0 : UInt8)).drop 10 = [0, 0] by rfl, split,
    List.take_of_length_le length.le]

theorem readCmdFromStorage_of_stored (h : Stored layout m i cmd) (storable : cmd.Storable)
    (first : 1 ≤ i) (total : i < m.cmdTotal) (stack : ℕ → UInt8) (home : Content) :
    readCmdFromStorage layout m.storage stack m.cmdTotal home i default = (true, ⟨cmd, i⟩) := by
  obtain ⟨pos, inside⟩ := posInStorage_of_lt h.1
  rw [readCmdFromStorage, if_neg (by omega), if_neg (by omega), pos,
    readSlot_of_holds stack h.2 inside storable.1]
  congr 3
  split_ifs with small
  · rfl
  · exact Content.zero_over_take (storable.2 small)

/-- The mission after commands have been added one after the other. -/
def Plan.addCmds (layout : Layout) (m : Plan) (cmds : List Command) : Plan :=
  cmds.foldl (fun m cmd => (m.addCmd layout cmd).2.2) m

theorem addCmds_stored (layout : Layout) (m : Plan) (cmds : List Command)
    (room : m.cmdTotal + cmds.length ≤ numCommandsMax layout) :
    (m.addCmds layout cmds).cmdTotal = m.cmdTotal + cmds.length ∧
      (∀ i < m.cmdTotal, ∀ cmd, Stored layout m i cmd →
        Stored layout (m.addCmds layout cmds) i cmd) ∧
      ∀ i (h : i < cmds.length),
        Stored layout (m.addCmds layout cmds) (m.cmdTotal + i) cmds[i].toSlot := by
  induction cmds generalizing m with
  | nil => exact ⟨rfl, fun _ _ _ h => h, fun _ h => absurd h (Nat.not_lt_zero _)⟩
  | cons cmd cmds ih =>
    rw [List.length_cons] at room
    have here : m.cmdTotal < numCommandsMax layout := by omega
    let next := m.wrote layout m.cmdTotal cmd.toSlot
    have added : m.addCmds layout (cmd :: cmds) = next.addCmds layout cmds := by
      rw [Plan.addCmds, List.foldl_cons, addCmd_eq_wrote here]
      rfl
    have total : next.cmdTotal = m.cmdTotal + 1 := max_eq_right (Nat.le_succ _)
    obtain ⟨length, kept, stored⟩ := ih next (by omega)
    rw [added]
    refine ⟨by rw [List.length_cons]; omega, fun i below other h => ?_, fun i inside => ?_⟩
    · exact kept i (by omega) other (h.wrote here below.ne _)
    · rw [List.length_cons] at inside
      cases i with
      | zero => exact kept _ (by omega) _ (stored_wrote here m cmd.toSlot)
      | succ i =>
        have := stored i (by omega)
        rwa [total, Nat.add_right_comm, Nat.add_assoc] at this

/-- A mission that is stored behind the home position is read back as the list of its commands. -/
theorem readCmdFromStorage_addCmds {cmds : List Command} (home : m.cmdTotal = 1)
    (room : 1 + cmds.length ≤ numCommandsMax layout) (storable : ∀ cmd ∈ cmds, cmd.toSlot.Storable)
    (small : (cmds.map Command.toSlot).length + 1 < 2 ^ 15) (stack : ℕ → UInt8) (index : ℕ) :
    let m' := m.addCmds layout cmds
    readCmdFromStorage layout m'.storage stack m'.cmdTotal .zero index default =
      ((CommandList.ofList (cmds.map Command.toSlot) small).readCmd index).elim (false, default)
        fun cmd => (true, cmd) := by
  intro m'
  obtain ⟨total, -, stored⟩ := addCmds_stored layout m cmds (by omega)
  rw [show m.addCmds layout cmds = m' from rfl] at total stored
  rw [CommandList.readCmd, CommandList.ofList]
  simp only [List.length_map]
  by_cases last : index ≥ cmds.length + 1 ∧ index ≠ 0
  · rw [if_pos last, readCmdFromStorage, if_pos (by omega)]
    rfl
  · rw [if_neg last]
    rcases Nat.eq_zero_or_pos index with rfl | pos
    · rw [if_pos rfl, readCmdFromStorage, if_neg (by simp), if_pos rfl]
      rfl
    · have inside : index - 1 < cmds.length := by omega
      have here := stored (index - 1) inside
      rw [home, Nat.add_sub_cancel' pos] at here
      have same := storable _ (List.getElem_mem inside)
      rw [if_neg (by omega), readCmdFromStorage_of_stored here same pos (by omega)]
      simp [List.getD_eq_getElem?_getD, inside]

/-- A waypoint and a camera command on the copter layout. -/
theorem copter_addCmds_read :
    let cmds : List Command := [⟨⟨16, 3, .zero⟩, 0⟩, ⟨⟨203, 0, .zero⟩, 0⟩]
    let layout := StorageManager.layoutCopter .four
    let m := Plan.addCmds layout { (default : Plan) with cmdTotal := 1 } cmds
    readCmdFromStorage layout m.storage (fun _ => 0) m.cmdTotal .zero 2 default =
      (true, ⟨⟨203, 0, .zero⟩, 2⟩) :=
  readCmdFromStorage_addCmds rfl (by decide) (by simp [Slot.Storable]) (by decide) _ 2

end Tm4cPilot.Mission
