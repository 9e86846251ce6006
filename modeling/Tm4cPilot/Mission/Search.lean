import Tm4cPilot.Mission.Model

/-!
# The search for the next command

What an iteration of `get_next_cmd` does, and that the search loops are left.
-/

namespace Tm4cPilot.Mission

open State

/-- The command at an index. -/
def CommandList.cmdAt (l : CommandList) (index : ℕ) : Command :=
  if index = 0 then ⟨⟨navWaypoint, 0, l.home⟩, 0⟩ else ⟨l.stored index, index⟩

def CommandList.IsJump (l : CommandList) (index : ℕ) : Prop := (l.cmdAt index).id = doJump
deriving Decidable

variable {l : CommandList} {increment : Bool} {i : ℕ} {tracking : JumpTracking}

@[simp] theorem index_cmdAt (l : CommandList) (i : ℕ) : (l.cmdAt i).index = i := by
  unfold CommandList.cmdAt
  split_ifs with h
  · exact h.symm
  · rfl

theorem readCmd_of_lt (h : i < l.total) : l.readCmd i = some (l.cmdAt i) := by
  unfold CommandList.readCmd CommandList.cmdAt
  rw [if_neg (by omega)]
  split_ifs <;> rfl

theorem isNavCmd_cmdAt_zero (l : CommandList) : isNavCmd (l.cmdAt 0) = true := rfl

/-- How often a jump was taken. -/
def JumpTracking.times (tracking : JumpTracking) (i : ℕ) : ℤ := (timesRun tracking.entries i).1

/-- The table after a lookup. -/
def JumpTracking.noted (tracking : JumpTracking) (i : ℕ) : JumpTracking :=
  ⟨(timesRun tracking.entries i).2, (length_timesRun _ _).trans tracking.length_entries⟩

/-- The table after counting. -/
def JumpTracking.counted (tracking : JumpTracking) (i : ℕ) : JumpTracking :=
  ⟨incremented (tracking.noted i).entries i,
    (length_incremented _ _).trans (tracking.noted i).length_entries⟩

/-- Where a jump leads. -/
def CommandList.target (l : CommandList) (i : ℕ) : ℕ := (l.cmdAt i).content.jumpTarget

/-- How often it may be taken. -/
def CommandList.numTimes (l : CommandList) (i : ℕ) : ℤ := (l.cmdAt i).content.jumpNumTimes

/-- The jump is taken with these counts. -/
def CommandList.Taken (l : CommandList) (tracking : JumpTracking) (i : ℕ) : Prop :=
  l.numTimes i = -1 ∨ tracking.times i < l.numTimes i
deriving Decidable

theorem jumpNumTimes_le (content : Content) : content.jumpNumTimes ≤ jumpTimesMax := by
  have hlen : ((content.bytes.drop 2).take 2).length = 2 := by simp [content.length_bytes]
  have hlt := Param.ofBytes_lt ((content.bytes.drop 2).take 2)
  rw [hlen] at hlt
  rw [Content.jumpNumTimes, Param.toInt, hlen, jumpTimesMax]
  split_ifs <;> omega

theorem follow_of_forever (h : l.numTimes i = -1) :
    follow l increment tracking (l.cmdAt i) = (l.target i, tracking) := if_pos h

theorem follow_of_counted (hj : l.IsJump i) (hv : l.invalidTarget (l.cmdAt i) = false)
    (h : l.numTimes i ≠ -1) :
    follow l increment tracking (l.cmdAt i) =
      if tracking.times i < l.numTimes i then
        (l.target i, if increment then tracking.counted i else tracking.noted i)
      else (i + 1, tracking.noted i) := by
  have hid : (l.cmdAt i).id = doJump := hj
  have hrun : getJumpTimesRun l tracking (l.cmdAt i) = (tracking.times i, tracking.noted i) := by
    rw [getJumpTimesRun, if_neg (by simp [hid, hv])]
    simp only [index_cmdAt]
    rfl
  have hinc : incrementJumpTimesRun (tracking.noted i) (l.cmdAt i) = tracking.counted i := by
    rw [incrementJumpTimesRun, if_neg (not_not.2 hid)]
    simp only [index_cmdAt]
    rfl
  rw [follow, hrun]
  refine (if_neg h).trans ?_
  simp only [index_cmdAt, hinc]
  rfl

theorem follow_fst (hj : l.IsJump i) (hv : l.invalidTarget (l.cmdAt i) = false) :
    (follow l increment tracking (l.cmdAt i)).1 =
      if l.Taken tracking i then l.target i else i + 1 := by
  by_cases h : l.numTimes i = -1
  · rw [follow_of_forever h, if_pos (.inl h)]
  · rw [follow_of_counted hj hv h]
    simp only [CommandList.Taken, h, false_or]
    split_ifs <;> rfl

/-! ## One iteration -/

/-- The search gives up at a jump. -/
def Search.Blocked (l : CommandList) (increment : Bool) (v : Search) : Prop :=
  v.maxLoops = 0 ∨ l.invalidTarget (l.cmdAt v.cmdIndex) = true ∨
    (increment = false ∧ v.jumpIndex = v.cmdIndex)

/-- The search goes on behind a jump. -/
def Search.jumped (l : CommandList) (increment : Bool) (v : Search) : Search :=
  ⟨(follow l increment v.tracking (l.cmdAt v.cmdIndex)).1,
    if v.jumpIndex = indexNone then v.cmdIndex else v.jumpIndex, v.maxLoops - 1,
    (follow l increment v.tracking (l.cmdAt v.cmdIndex)).2⟩

variable {v v' : Search} {r : Option Command × JumpTracking}

theorem getNextCmdBody_of_le (h : l.total ≤ v.cmdIndex) :
    getNextCmdBody l increment v = .inl (none, v.tracking) := by
  rw [getNextCmdBody, if_pos h]

theorem getNextCmdBody_of_not_isJump (h : v.cmdIndex < l.total) (hj : ¬l.IsJump v.cmdIndex) :
    getNextCmdBody l increment v = .inl (some (l.cmdAt v.cmdIndex), v.tracking) := by
  rw [getNextCmdBody, if_neg (by omega), readCmd_of_lt h]
  exact if_neg hj

theorem getNextCmdBody_of_blocked (h : v.cmdIndex < l.total) (hj : l.IsJump v.cmdIndex)
    (hb : v.Blocked l increment) : getNextCmdBody l increment v = .inl (none, v.tracking) := by
  rw [getNextCmdBody, if_neg (by omega), readCmd_of_lt h]
  refine (if_pos hj).trans (if_pos ?_)
  simpa [Search.Blocked] using hb

theorem getNextCmdBody_of_jump (h : v.cmdIndex < l.total) (hj : l.IsJump v.cmdIndex)
    (hb : ¬v.Blocked l increment) : getNextCmdBody l increment v = .inr (v.jumped l increment) := by
  rw [getNextCmdBody, if_neg (by omega), readCmd_of_lt h]
  refine (if_pos hj).trans (if_neg ?_)
  simpa [Search.Blocked] using hb

theorem getNextCmdBody_inr (h : getNextCmdBody l increment v = .inr v') :
    v.cmdIndex < l.total ∧ l.IsJump v.cmdIndex ∧ ¬v.Blocked l increment ∧
      v' = v.jumped l increment := by
  by_cases hlt : v.cmdIndex < l.total
  · by_cases hj : l.IsJump v.cmdIndex
    · by_cases hb : v.Blocked l increment
      · cases (getNextCmdBody_of_blocked hlt hj hb).symm.trans h
      · exact ⟨hlt, hj, hb, (Sum.inr.inj ((getNextCmdBody_of_jump hlt hj hb).symm.trans h)).symm⟩
    · cases (getNextCmdBody_of_not_isJump hlt hj).symm.trans h
  · cases (getNextCmdBody_of_le (by omega)).symm.trans h

theorem getNextCmdBody_inl (h : getNextCmdBody l increment v = .inl r) :
    r.2 = v.tracking ∧ (r.1 = none ∨
      v.cmdIndex < l.total ∧ ¬l.IsJump v.cmdIndex ∧ r.1 = some (l.cmdAt v.cmdIndex)) := by
  by_cases hlt : v.cmdIndex < l.total
  · by_cases hj : l.IsJump v.cmdIndex
    · by_cases hb : v.Blocked l increment
      · obtain rfl := Sum.inl.inj ((getNextCmdBody_of_blocked hlt hj hb).symm.trans h)
        exact ⟨rfl, .inl rfl⟩
      · cases (getNextCmdBody_of_jump hlt hj hb).symm.trans h
    · obtain rfl := Sum.inl.inj ((getNextCmdBody_of_not_isJump hlt hj).symm.trans h)
      exact ⟨rfl, .inr ⟨hlt, hj, rfl⟩⟩
  · obtain rfl := Sum.inl.inj ((getNextCmdBody_of_le (by omega)).symm.trans h)
    exact ⟨rfl, .inl rfl⟩

theorem maxLoops_lt_of_inr (h : getNextCmdBody l increment v = .inr v') :
    v'.maxLoops < v.maxLoops := by
  obtain ⟨-, -, hb, rfl⟩ := getNextCmdBody_inr h
  have hpos : v.maxLoops ≠ 0 := fun h => hb (.inl h)
  show v.maxLoops - 1 < v.maxLoops
  omega

theorem returns_getNextCmd (l : CommandList) (i : ℕ) (increment : Bool) (tracking : JumpTracking) :
    Loop.Returns (getNextCmdBody l increment) (.start i tracking)
      (getNextCmd l i increment tracking) :=
  Loop.returns_run (fun _ _ => maxLoops_lt_of_inr) (show 64 < 65 by decide)

theorem getNextCmd_eq (h : Loop.Returns (getNextCmdBody l increment) (.start i tracking) r) :
    getNextCmd l i increment tracking = r :=
  (returns_getNextCmd l i increment tracking).unique h

theorem getNextCmd_some {cmd : Command} {tracking' : JumpTracking}
    (h : getNextCmd l i increment tracking = (some cmd, tracking')) :
    cmd.index < l.total ∧ cmd = l.cmdAt cmd.index := by
  have hr := returns_getNextCmd l i increment tracking
  rw [h] at hr
  refine hr.invariant (I := fun _ => True) (Q := fun r => ∀ cmd, r.1 = some cmd →
    cmd.index < l.total ∧ cmd = l.cmdAt cmd.index)
    (fun _ _ _ _ => trivial) (fun v r _ hb cmd hcmd => ?_) trivial cmd rfl
  obtain ⟨-, hnone | ⟨hlt, -, hsome⟩⟩ := getNextCmdBody_inl hb
  · cases hcmd.symm.trans hnone
  · obtain rfl := Option.some.inj (hcmd.symm.trans hsome)
    rw [index_cmdAt]
    exact ⟨hlt, rfl⟩

theorem getNextCmd_of_not_isJump (h : i < l.total) (hj : ¬l.IsJump i) :
    getNextCmd l i increment tracking = (some (l.cmdAt i), tracking) :=
  getNextCmd_eq (.leave (getNextCmdBody_of_not_isJump h hj))

theorem getNextCmd_of_le (h : l.total ≤ i) : getNextCmd l i increment tracking = (none, tracking) :=
  getNextCmd_eq (.leave (getNextCmdBody_of_le h))

/-! ## The other search loops -/

theorem returns_getNextNavCmd (l : CommandList) (i : ℕ) (tracking : JumpTracking) :
    Loop.Returns (getNextNavCmdBody l) (i, tracking) (getNextNavCmd l i tracking) := by
  refine Loop.returns_run (μ := fun v => l.total - v.1) (fun v v' h => ?_)
    (show l.total - i < l.total + 1 by omega)
  rw [getNextNavCmdBody] at h
  split_ifs at h with hle
  split at h
  · cases h
  · split_ifs at h
    obtain rfl := Sum.inr.inj h
    show l.total - (v.1 + 1) < l.total - v.1
    omega

section NoteDoCmd

variable (s : State)

theorem noteDoCmd_eq : s.noteDoCmd = { s with doCmdAllDone := s.doCmdAllDone || !s.doCmdLoaded } := by
  obtain ⟨_, _, loaded⟩ := s
  cases loaded <;> simp [noteDoCmd]

@[simp] theorem noteDoCmd_state : s.noteDoCmd.state = s.state := by rw [noteDoCmd_eq]

@[simp] theorem noteDoCmd_navCmdLoaded : s.noteDoCmd.navCmdLoaded = s.navCmdLoaded := by
  rw [noteDoCmd_eq]

@[simp] theorem noteDoCmd_doCmdLoaded : s.noteDoCmd.doCmdLoaded = s.doCmdLoaded := by
  rw [noteDoCmd_eq]

@[simp] theorem noteDoCmd_doCmdAllDone :
    s.noteDoCmd.doCmdAllDone = (s.doCmdAllDone || !s.doCmdLoaded) := by
  rw [noteDoCmd_eq]

@[simp] theorem noteDoCmd_navCmd : s.noteDoCmd.navCmd = s.navCmd := by rw [noteDoCmd_eq]

@[simp] theorem noteDoCmd_doCmd : s.noteDoCmd.doCmd = s.doCmd := by rw [noteDoCmd_eq]

@[simp] theorem noteDoCmd_tracking : s.noteDoCmd.tracking = s.tracking := by rw [noteDoCmd_eq]

@[simp] theorem noteDoCmd_log : s.noteDoCmd.log = s.log := by rw [noteDoCmd_eq]

end NoteDoCmd

section Walk

variable {w w' : Walk} {cmd : Command}

/-- The state with a command found. -/
def Walk.found (w : Walk) (cmd : Command) (tracking : JumpTracking) : State :=
  { w.state with tracking := tracking }.emit (.found cmd)

theorem advanceCurrentNavCmdBody_of_loaded (h : w.state.navCmdLoaded = true) :
    advanceCurrentNavCmdBody l w = .inl (true, w.state.noteDoCmd) := if_pos h

theorem advanceCurrentNavCmdBody_of_none (h : w.state.navCmdLoaded = false)
    (hg : getNextCmd l w.cmdIndex true w.state.tracking = (none, tracking)) :
    advanceCurrentNavCmdBody l w = .inl (false, { w.state with tracking := tracking }) := by
  rw [advanceCurrentNavCmdBody, h, hg]
  rfl

theorem advanceCurrentNavCmdBody_of_some (h : w.state.navCmdLoaded = false)
    (hg : getNextCmd l w.cmdIndex true w.state.tracking = (some cmd, tracking)) :
    advanceCurrentNavCmdBody l w =
      if isNavCmd cmd then
        .inr ⟨cmd.index + 1, w.maxLoops, (w.found cmd tracking).startNavCmd cmd⟩
      else if w.state.doCmdLoaded = false then
        .inr ⟨cmd.index + 1, w.maxLoops, (w.found cmd tracking).startDoCmd cmd⟩
      else if w.maxLoops = 0 then .inl (false, w.found cmd tracking)
      else .inr ⟨cmd.index + 1, w.maxLoops - 1, w.found cmd tracking⟩ := by
  rw [advanceCurrentNavCmdBody, h, hg]
  simp [emit, Walk.found]

theorem advanceCurrentNavCmdBody_inr (h : advanceCurrentNavCmdBody l w = .inr w') :
    ∃ cmd tracking, w.state.navCmdLoaded = false ∧
      getNextCmd l w.cmdIndex true w.state.tracking = (some cmd, tracking) ∧
      w'.cmdIndex = cmd.index + 1 ∧
      (isNavCmd cmd = true ∧ w'.maxLoops = w.maxLoops ∧
          w'.state = (w.found cmd tracking).startNavCmd cmd ∨
        isNavCmd cmd = false ∧ w.state.doCmdLoaded = false ∧ w'.maxLoops = w.maxLoops ∧
          w'.state = (w.found cmd tracking).startDoCmd cmd ∨
        isNavCmd cmd = false ∧ w.state.doCmdLoaded = true ∧ w.maxLoops = w'.maxLoops + 1 ∧
          w'.state = w.found cmd tracking) := by
  cases hloaded : w.state.navCmdLoaded with
  | true => cases (advanceCurrentNavCmdBody_of_loaded hloaded).symm.trans h
  | false =>
    rcases hg : getNextCmd l w.cmdIndex true w.state.tracking with ⟨_ | cmd, tracking⟩
    · cases (advanceCurrentNavCmdBody_of_none hloaded hg).symm.trans h
    · refine ⟨cmd, tracking, rfl, rfl, ?_⟩
      rw [advanceCurrentNavCmdBody_of_some hloaded hg] at h
      split_ifs at h with hnav hdo hzero
      · obtain rfl := Sum.inr.inj h
        exact ⟨rfl, .inl ⟨hnav, rfl, rfl⟩⟩
      · obtain rfl := Sum.inr.inj h
        exact ⟨rfl, .inr (.inl ⟨eq_false_of_ne_true hnav, hdo, rfl, rfl⟩)⟩
      · obtain rfl := Sum.inr.inj h
        refine ⟨rfl, .inr (.inr ⟨eq_false_of_ne_true hnav, eq_true_of_ne_false hdo, ?_, rfl⟩)⟩
        show w.maxLoops = w.maxLoops - 1 + 1
        omega

theorem advanceCurrentNavCmdBody_inl {r : Bool × State}
    (h : advanceCurrentNavCmdBody l w = .inl r) :
    w.state.navCmdLoaded = true ∧ r = (true, w.state.noteDoCmd) ∨
      w.state.navCmdLoaded = false ∧ r.1 = false ∧
        (r.2.log = w.state.log ∨ ∃ cmd, r.2.log = .found cmd :: w.state.log) := by
  cases hloaded : w.state.navCmdLoaded with
  | true =>
    exact .inl ⟨rfl, (Sum.inl.inj ((advanceCurrentNavCmdBody_of_loaded hloaded).symm.trans h)).symm⟩
  | false =>
    refine .inr ⟨rfl, ?_⟩
    rcases hg : getNextCmd l w.cmdIndex true w.state.tracking with ⟨_ | cmd, tracking⟩
    · obtain rfl := Sum.inl.inj ((advanceCurrentNavCmdBody_of_none hloaded hg).symm.trans h)
      exact ⟨rfl, .inl rfl⟩
    · rw [advanceCurrentNavCmdBody_of_some hloaded hg] at h
      split_ifs at h
      obtain rfl := Sum.inl.inj h
      exact ⟨rfl, .inr ⟨cmd, rfl⟩⟩

/-- How many commands `advance_current_nav_cmd` can still find. -/
def Walk.left (w : Walk) : ℕ :=
  if w.state.navCmdLoaded then 0
  else if w.state.doCmdLoaded then w.maxLoops + 1 else w.maxLoops + 2

theorem left_lt_of_inr (h : advanceCurrentNavCmdBody l w = .inr w') : w'.left < w.left := by
  obtain ⟨cmd, tracking, hloaded, -, -, hcases⟩ := advanceCurrentNavCmdBody_inr h
  obtain ⟨-, hm, hs⟩ | ⟨-, hdo, hm, hs⟩ | ⟨-, hdo, hm, hs⟩ := hcases
  · have hleft : w'.left = 0 := by simp [Walk.left, hs, startNavCmd, emit]
    rw [hleft, Walk.left, if_neg (by simp [hloaded])]
    split_ifs <;> omega
  · simp [Walk.left, hs, hloaded, hdo, hm, Walk.found, startDoCmd, emit]
  · simp [Walk.left, hs, hloaded, hdo, hm, Walk.found, emit]

theorem returns_advanceCurrentNavCmd (l : CommandList) (s : State) :
    Loop.Returns (advanceCurrentNavCmdBody l) (.start s)
      (Loop.run (advanceCurrentNavCmdBody l) 258 (.start s)) := by
  refine Loop.returns_run (μ := Walk.left) (fun _ _ => left_lt_of_inr) ?_
  unfold Walk.left
  split_ifs <;> simp [Walk.start]

end Walk

/-- Where the next do command is looked for. -/
def State.nextDoIndex (s : State) : ℕ :=
  if s.doCmd.index = indexNone then firstRealCommand else s.doCmd.index + 1

theorem advanceCurrentDoCmd_cases (l : CommandList) (s : State) :
    advanceCurrentDoCmd l s = s ∨
      (∃ tracking, (tracking = s.tracking ∨
          tracking = (getNextCmd l s.nextDoIndex false s.tracking).2) ∧
        advanceCurrentDoCmd l s = { s with tracking := tracking, doCmdAllDone := true }) ∨
      ∃ cmd tracking, s.state = .running ∧ s.doCmdAllDone = false ∧ isNavCmd cmd = false ∧
        getNextCmd l s.nextDoIndex false s.tracking = (some cmd, tracking) ∧
        advanceCurrentDoCmd l s = { s with tracking := tracking }.startDoCmd cmd := by
  by_cases hskip : s.state ≠ .running ∨ s.doCmdAllDone = true
  · exact .inl (if_pos hskip)
  · rw [not_or, not_not, Bool.not_eq_true] at hskip
    obtain ⟨hrun, hall⟩ := hskip
    refine .inr ?_
    rw [advanceCurrentDoCmd, if_neg (by simp [hrun, hall])]
    dsimp only
    rw [← State.nextDoIndex]
    by_cases hend : s.nextDoIndex ≥ l.total
    · rw [if_pos hend]
      exact .inl ⟨s.tracking, .inl rfl, rfl⟩
    · rw [if_neg hend, getNextDoCmd, if_neg hend]
      rcases getNextCmd l s.nextDoIndex false s.tracking with ⟨_ | cmd, tracking⟩
      · exact .inl ⟨tracking, .inr rfl, rfl⟩
      · cases hnav : isNavCmd cmd with
        | true =>
          simp only [hnav, if_true]
          exact .inl ⟨tracking, .inr rfl, rfl⟩
        | false =>
          refine .inr ⟨cmd, tracking, hrun, hall, hnav, rfl, ?_⟩
          simp only [hnav, Bool.false_eq_true, if_false]

end Tm4cPilot.Mission
