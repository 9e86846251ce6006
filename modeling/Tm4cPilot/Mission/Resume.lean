import Tm4cPilot.Mission.Returns

/-!
# Stopping and resuming a mission

The flight modes stop and resume a mission, and a ground station may set its current command. A
navigation command that is loaded is always the one of the list at its index.
-/

namespace Tm4cPilot.Mission

def stop (s : State) : State := { s with state := .stopped }

/-- Start the loaded commands again. -/
def restartCmds (s : State) : State :=
  let s := if s.navCmdLoaded then s.emit (.start s.navCmd) else s
  if s.doCmdLoaded ∧ s.doCmd.index ≠ indexNone then s.emit (.start s.doCmd) else s

def resume (l : CommandList) (s : State) : State :=
  if s.state = .complete then start l s
  else
    let stopped := s.state = .stopped
    -- a mission that is not complete now runs, whether it was stopped or not
    let s := { s with state := .running }
    if stopped ∧ s.navCmd.index = indexNone then start l s
    else
      match l.readCmd s.navCmd.index with
      | none => start l s
      | some cmd => restartCmds { s with navCmd := cmd }

/-- What the constructor of `AP_Mission` sets. -/
structure Created (s : State) : Prop where
  state : s.state = .stopped
  navCmdLoaded : s.navCmdLoaded = false
  doCmdLoaded : s.doCmdLoaded = false
  navIndex : s.navCmd.index = indexNone
  doIndex : s.doCmd.index = indexNone
  prevNavCmdId : s.prevNavCmdId = 0
  prevNavCmdIndex : s.prevNavCmdIndex = indexNone
  prevNavCmdWpIndex : s.prevNavCmdWpIndex = indexNone

/-- What the calls reach; one that hangs reaches nothing. -/
inductive Reached (l : CommandList) : State → Prop
  | created {s : State} : Created s → Reached l s
  | start {s : State} : Reached l s → Reached l (start l s)
  | update {s : State} (verify : Command → Bool) : Reached l s → Reached l (update l s verify)
  | stop {s : State} : Reached l s → Reached l (stop s)
  | resume {s : State} : Reached l s → Reached l (resume l s)
  | setCurrentCmd {s s' : State} {fuel index : ℕ} {answer : Bool} : Reached l s →
      setCurrentCmd fuel l s index = some (answer, s') → Reached l s'

/-- A loaded command is the one of the list. -/
def Coherent (l : CommandList) (s : State) : Prop :=
  s.navCmdLoaded = true → s.navCmd.index < l.total ∧ isNavCmd s.navCmd = true ∧
    s.navCmd = l.cmdAt s.navCmd.index

variable {l : CommandList} {s : State}

theorem Coherent.congr {s' : State} (h : Coherent l s) (loaded : s'.navCmdLoaded = s.navCmdLoaded)
    (navCmd : s'.navCmd = s.navCmd) : Coherent l s' := by
  rw [Coherent, loaded, navCmd]
  exact h

theorem coherent_of_not_loaded (h : s.navCmdLoaded = false) : Coherent l s :=
  fun loaded => absurd (h.symm.trans loaded) Bool.false_ne_true

theorem coherent_of_found {cmd : Command} {i : ℕ} {increment : Bool}
    {tracking tracking' : JumpTracking}
    (found : getNextCmd l i increment tracking = (some cmd, tracking')) (nav : isNavCmd cmd = true)
    (navCmd : s.navCmd = cmd) : Coherent l s := by
  intro _
  obtain ⟨inside, stored⟩ := getNextCmd_some found
  rw [navCmd]
  exact ⟨inside, nav, stored⟩

/-! ## Every call keeps it -/

theorem Coherent.advanceCurrentNavCmd (h : Coherent l s) :
    Coherent l (advanceCurrentNavCmd l s).2 := by
  rw [Mission.advanceCurrentNavCmd]
  split_ifs
  · exact h
  · refine (returns_advanceCurrentNavCmd l s).invariant (I := fun w => Coherent l w.state)
      (Q := fun r => Coherent l r.2) (fun w w' hw next => ?_) (fun w r hw leave => ?_) ?_
    · obtain ⟨cmd, tracking, -, found, -, hcases⟩ := advanceCurrentNavCmdBody_inr next
      obtain ⟨nav, -, hs⟩ | ⟨-, -, -, hs⟩ | ⟨-, -, -, hs⟩ := hcases
      · exact coherent_of_found found nav (by rw [hs]; rfl)
      · rw [hs]
        exact hw.congr rfl rfl
      · rw [hs]
        exact hw.congr rfl rfl
    · cases loaded : w.state.navCmdLoaded with
      | true =>
        obtain rfl := Sum.inl.inj ((advanceCurrentNavCmdBody_of_loaded loaded).symm.trans leave)
        exact hw.congr (noteDoCmd_navCmdLoaded _) (noteDoCmd_navCmd _)
      | false =>
        -- the walk fails, and nothing is loaded
        refine coherent_of_not_loaded ?_
        rcases found : getNextCmd l w.cmdIndex true w.state.tracking with ⟨_ | cmd, tracking⟩
        · obtain rfl :=
            Sum.inl.inj ((advanceCurrentNavCmdBody_of_none loaded found).symm.trans leave)
          exact loaded
        · rw [advanceCurrentNavCmdBody_of_some loaded found] at leave
          split_ifs at leave
          obtain rfl := Sum.inl.inj leave
          exact loaded
    · exact h.congr rfl rfl

theorem coherent_start : Coherent l (start l s) := by
  have reset : Coherent l (reset { s with state := .running }) := coherent_of_not_loaded rfl
  rw [start]
  split_ifs
  · exact reset.advanceCurrentNavCmd
  · exact reset.advanceCurrentNavCmd.congr rfl rfl

theorem Coherent.updateDoCmd (h : Coherent l s) (verify : Command → Bool) :
    Coherent l (updateDoCmd l verify s) := by
  rw [Mission.updateDoCmd]
  split_ifs
  · obtain same | ⟨_, -, same⟩ | ⟨_, _, -, -, -, -, same⟩ := advanceCurrentDoCmd_cases l s
    · rwa [same]
    · rw [same]
      exact h.congr rfl rfl
    · rw [same]
      exact h.congr rfl rfl
  · exact h.congr rfl rfl

theorem Coherent.updateNext (h : Coherent l s) (verify : Command → Bool) :
    Coherent l (updateNext l verify s) := by
  rw [Mission.updateNext]
  split_ifs
  · exact h.advanceCurrentNavCmd.updateDoCmd verify
  · exact h.advanceCurrentNavCmd.congr rfl rfl

theorem Coherent.update (h : Coherent l s) (verify : Command → Bool) :
    Coherent l (update l s verify) := by
  rw [Mission.update]
  split_ifs
  · exact h
  · exact h.updateNext verify
  · exact (coherent_of_not_loaded rfl).updateNext verify
  · refine Coherent.updateDoCmd ?_ verify
    exact h.congr rfl rfl

theorem Coherent.restartCmds (h : Coherent l s) : Coherent l (restartCmds s) := by
  rw [Mission.restartCmds]
  split_ifs <;> exact h.congr rfl rfl

theorem Coherent.resume (h : Coherent l s) : Coherent l (resume l s) := by
  rw [Mission.resume]
  dsimp only
  split_ifs
  · exact coherent_start
  · exact coherent_start
  · cases read : l.readCmd s.navCmd.index with
    | none => exact coherent_start
    | some cmd =>
      refine Coherent.restartCmds fun loaded => ?_
      -- the command that is read again is the one that was loaded
      obtain ⟨inside, nav, stored⟩ := h loaded
      rw [readCmd_of_lt inside, ← stored, Option.some.injEq] at read
      subst read
      exact ⟨inside, nav, stored⟩

section SetCurrentCmd

variable {load : State → Command → State} {halt finish : State → Bool × State}

theorem coherent_setCurrentCmdBody
    (loads : ∀ s cmd, isNavCmd cmd = true → (load s cmd).navCmd = cmd)
    (skips : ∀ s cmd, isNavCmd cmd = false → (load s cmd).navCmdLoaded = s.navCmdLoaded)
    (halts : ∀ s, (halt s).2.navCmdLoaded = s.navCmdLoaded)
    (finishes : ∀ s, Coherent l s → Coherent l (finish s).2) {v : ℕ × State} {r : Bool × State}
    (h : Loop.Returns (setCurrentCmdBody l load halt finish) v r) (hv : Coherent l v.2) :
    Coherent l r.2 := by
  refine h.invariant (I := fun v => Coherent l v.2) (Q := fun r => Coherent l r.2)
    (fun v v' _ next => ?_) (fun v r hv leave => ?_) hv
  · obtain ⟨loaded, cmd, tracking, found, rfl⟩ := setCurrentCmdBody_inr next
    cases nav : isNavCmd cmd with
    | true => exact coherent_of_found found nav (loads _ cmd nav)
    | false => exact coherent_of_not_loaded ((skips _ cmd nav).trans loaded)
  · rw [setCurrentCmdBody] at leave
    split_ifs at leave with loaded
    · obtain rfl := Sum.inl.inj leave
      exact finishes v.2 hv
    · split at leave
      · obtain rfl := Sum.inl.inj leave
        exact coherent_of_not_loaded ((halts _).trans (eq_false_of_ne_true loaded))
      · cases leave

end SetCurrentCmd

theorem Coherent.setCurrentCmd {s' : State} {fuel index : ℕ} {answer : Bool} (h : Coherent l s)
    (done : setCurrentCmd fuel l s index = some (answer, s')) : Coherent l s' := by
  rw [Mission.setCurrentCmd] at done
  split_ifs at done with refused running
  · cases done
    exact h
  all_goals
    have prepared : Coherent l (prepareCurrentCmd s index).2 := by
      refine coherent_of_not_loaded ?_
      rw [prepareCurrentCmd]
      split_ifs <;> rfl
    have returns := Loop.returns_of_exec done
  · refine coherent_setCurrentCmdBody (fun s cmd nav => ?_) (fun s cmd nav => ?_) (fun _ => rfl)
      (fun s hs => ?_) returns prepared
    · rw [loadRunning, if_pos nav]
      rfl
    · rw [loadRunning, if_neg (by simp [nav])]
      split_ifs <;> rfl
    · exact hs.congr (noteDoCmd_navCmdLoaded s) (noteDoCmd_navCmd s)
  · refine coherent_setCurrentCmdBody (fun s cmd nav => ?_) (fun s cmd nav => ?_) (fun _ => rfl)
      (fun s hs => ?_) returns prepared
    · rw [loadStopped, if_pos nav]
    · rw [loadStopped, if_neg (by simp [nav])]
      split_ifs <;> rfl
    · exact hs.congr (noteDoCmd_navCmdLoaded s) (noteDoCmd_navCmd s)

theorem Reached.coherent (h : Reached l s) : Coherent l s := by
  induction h with
  | created fresh => exact coherent_of_not_loaded fresh.navCmdLoaded
  | start _ _ => exact coherent_start
  | update verify _ ih => exact ih.update verify
  | stop _ ih => exact ih.congr rfl rfl
  | resume _ ih => exact ih.resume
  | setCurrentCmd _ done ih => exact ih.setCurrentCmd done

end Tm4cPilot.Mission
