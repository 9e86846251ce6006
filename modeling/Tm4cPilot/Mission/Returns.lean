import Mathlib.Logic.Relation
import Tm4cPilot.Mission.Search

/-!
# Do the mission calls return?

All searches have a bound except the one of `set_current_cmd`. Counted jumps run out, so it hangs on
a cycle of do commands tied by jumps that repeat for ever.
-/

namespace Tm4cPilot.Mission

open Track List Option
open Relation (TransGen)

/-- What an entry can still count. -/
def Track.weight (e : Track) : ℕ :=
  if e.index = indexNone then 2 ^ 15 else (jumpTimesMax - e.numTimesRun).toNat

/-- The sum of the entries. -/
def JumpTracking.weight (tracking : JumpTracking) : ℕ := (tracking.entries.map Track.weight).sum

theorem weight_timesRun_le {i : ℕ} (hi : i ≠ indexNone) (es : List Track) :
    ((timesRun es i).2.map weight).sum ≤ (es.map weight).sum := by
  induction es with
  | nil => exact le_rfl
  | cons e es ih =>
    rw [timesRun]
    split_ifs with h hfree
    · exact le_rfl
    · simp [weight, hfree, hi, jumpTimesMax]
    · simpa using ih

theorem weight_incremented_lt {i : ℕ} (hi : i ≠ indexNone) {es : List Track}
    (h : (timesRun es i).1 < jumpTimesMax) :
    ((incremented (timesRun es i).2 i).map weight).sum < (es.map weight).sum := by
  induction es with
  | nil => exact absurd h (lt_irrefl _)
  | cons e es ih =>
    rw [timesRun] at h ⊢
    split_ifs at h ⊢ with heq hfree
    · rw [incremented, if_pos heq, map_cons, sum_cons, map_cons, sum_cons]
      refine Nat.add_lt_add_right ?_ _
      rw [weight, if_neg hi, weight, if_neg (heq.symm ▸ hi)]
      dsimp only
      omega
    · simp [incremented, weight, hfree, hi, jumpTimesMax]
    · simp only [incremented, if_neg heq, if_neg hfree, map_cons, sum_cons]
      exact Nat.add_lt_add_left (ih h) _

variable {l : CommandList} {i : ℕ} {tracking : JumpTracking}

/-- Where a jump leads once it is used up. -/
def CommandList.settledNext (l : CommandList) (i : ℕ) : ℕ :=
  if l.numTimes i = -1 then l.target i else i + 1

theorem weight_follow (tracking : JumpTracking) (hi : i < l.total) (hj : l.IsJump i)
    (hv : l.invalidTarget (l.cmdAt i) = false) :
    (follow l true tracking (l.cmdAt i)).2.weight < tracking.weight ∨
      (follow l true tracking (l.cmdAt i)).2.weight ≤ tracking.weight ∧
        (follow l true tracking (l.cmdAt i)).1 = l.settledNext i := by
  have hne : i ≠ indexNone := by
    have := l.small
    rw [indexNone]
    omega
  unfold CommandList.settledNext
  by_cases h : l.numTimes i = -1
  · rw [follow_of_forever h, if_pos h]
    exact .inr ⟨le_rfl, rfl⟩
  · rw [follow_of_counted hj hv h, if_neg h]
    by_cases hleft : tracking.times i < l.numTimes i
    · rw [if_pos hleft]
      exact .inl (weight_incremented_lt hne (hleft.trans_le (jumpNumTimes_le _)))
    · rw [if_neg hleft]
      exact .inr ⟨weight_timesRun_le hne _, rfl⟩

/-- The do command found when no counted jump is left. -/
def CommandList.landing (l : CommandList) : ℕ → ℕ → Option ℕ
  | n, i =>
    if i ≥ l.total then none
    else if l.IsJump i then
      match n with
      | 0 => none
      | n + 1 =>
        if l.invalidTarget (l.cmdAt i) then none else landing l n (l.settledNext i)
    else if isNavCmd (l.cmdAt i) then none
    else some i

/-- The do command behind another, with no counted jump left. -/
def Leads (l : CommandList) (d d' : ℕ) : Prop := l.landing 64 (d + 1) = some d'

theorem landing_of_not_isJump {n : ℕ} (h : i < l.total) (hj : ¬l.IsJump i)
    (hnav : isNavCmd (l.cmdAt i) = false) : l.landing n i = some i := by
  cases n <;> simp [CommandList.landing, hj, hnav, h]

theorem landing_of_isJump {n : ℕ} (h : i < l.total) (hj : l.IsJump i)
    (hv : l.invalidTarget (l.cmdAt i) = false) :
    l.landing (n + 1) i = l.landing n (l.settledNext i) := by
  rw [CommandList.landing, if_neg (by omega), if_pos hj, hv]
  rfl

theorem landing_some {n d : ℕ} (h : l.landing n i = some d) :
    d < l.total ∧ ¬l.IsJump d ∧ isNavCmd (l.cmdAt d) = false := by
  induction n generalizing i with
  | zero =>
    simp only [CommandList.landing] at h
    split_ifs at h with hle hj hnav
    obtain rfl := some.inj h
    exact ⟨by omega, hj, eq_false_of_ne_true hnav⟩
  | succ n ih =>
    rw [CommandList.landing] at h
    split_ifs at h with hle hj hv hnav
    · exact ih h
    · obtain rfl := some.inj h
      exact ⟨by omega, hj, eq_false_of_ne_true hnav⟩

theorem weight_getNextCmd {cmd : Command} {tracking' : JumpTracking}
    (h : getNextCmd l i true tracking = (some cmd, tracking')) :
    tracking'.weight < tracking.weight ∨ tracking'.weight ≤ tracking.weight ∧
      (isNavCmd cmd = true ∨ l.landing 64 i = some cmd.index) := by
  have hsearch : ∀ (v : Search) (r : Option Command × JumpTracking),
      Loop.Returns (getNextCmdBody l true) v r → r.1 = some cmd →
      r.2.weight < v.tracking.weight ∨ r.2.weight ≤ v.tracking.weight ∧
        (isNavCmd cmd = true ∨ l.landing v.maxLoops v.cmdIndex = some cmd.index) := by
    intro v r hr hcmd
    induction hr with
    | @leave v r hb =>
      obtain ⟨htracking, hnone | ⟨hlt, hj, hsome⟩⟩ := getNextCmdBody_inl hb
      · cases hcmd.symm.trans hnone
      · obtain rfl := some.inj (hcmd.symm.trans hsome)
        refine .inr ⟨htracking.symm ▸ le_rfl, ?_⟩
        rw [index_cmdAt]
        cases hnav : isNavCmd (l.cmdAt v.cmdIndex) with
        | true => exact .inl rfl
        | false => exact .inr (landing_of_not_isJump hlt hj hnav)
    | @next v v' r hb _ ih =>
      obtain ⟨hlt, hj, hnb, rfl⟩ := getNextCmdBody_inr hb
      simp only [Search.Blocked, not_or] at hnb
      have hvalid := eq_false_of_ne_true hnb.2.1
      have hstep := weight_follow v.tracking hlt hj hvalid
      obtain ⟨n, hn⟩ : ∃ n, v.maxLoops = n + 1 := ⟨v.maxLoops - 1, by omega⟩
      rw [hn, landing_of_isJump hlt hj hvalid]
      simp only [Search.jumped, hn, Nat.add_sub_cancel] at ih
      obtain hrest | ⟨hle, hrest⟩ := ih hcmd
      · exact .inl (by omega)
      · obtain hstep | ⟨hle', hnext⟩ := hstep
        · exact .inl (by omega)
        · exact .inr ⟨hle.trans hle', hnext ▸ hrest⟩
  have hr := returns_getNextCmd l i true tracking
  rw [h] at hr
  exact hsearch _ _ hr rfl

theorem finite_leads (l : CommandList) : {d' | ∃ d, Leads l d d'}.Finite :=
  (Set.finite_lt_nat l.total).subset fun _ ⟨_, h⟩ => (landing_some h).1

section Loop

variable {load : State → Command → State} {stop finish : State → Bool × State}

theorem setCurrentCmdBody_of_some {v : ℕ × State} {cmd : Command} {tracking : JumpTracking}
    (h : v.2.navCmdLoaded = false)
    (hg : getNextCmd l v.1 true v.2.tracking = (some cmd, tracking)) :
    setCurrentCmdBody l load stop finish v =
      .inr (cmd.index + 1, load { v.2 with tracking := tracking } cmd) := by
  rw [setCurrentCmdBody, if_neg (by simp [h]), hg]

theorem setCurrentCmdBody_inr {v v' : ℕ × State}
    (h : setCurrentCmdBody l load stop finish v = .inr v') :
    v.2.navCmdLoaded = false ∧ ∃ cmd tracking,
      getNextCmd l v.1 true v.2.tracking = (some cmd, tracking) ∧
        v' = (cmd.index + 1, load { v.2 with tracking := tracking } cmd) := by
  cases hloaded : v.2.navCmdLoaded with
  | true => simp [setCurrentCmdBody, hloaded] at h
  | false =>
    rcases hg : getNextCmd l v.1 true v.2.tracking with ⟨_ | cmd, tracking⟩
    · simp [setCurrentCmdBody, hloaded, hg] at h
    · rw [setCurrentCmdBody_of_some hloaded hg, Sum.inr.injEq] at h
      exact ⟨rfl, cmd, tracking, rfl, h.symm⟩

/-- Each round loads a command, takes weight off, or follows a lead. -/
theorem exists_returns_setCurrentCmdBody (hacyclic : ∀ d, ¬TransGen (Leads l) d d)
    (htracking : ∀ s cmd, (load s cmd).tracking = s.tracking)
    (hnav : ∀ s cmd, isNavCmd cmd = true → (load s cmd).navCmdLoaded = true)
    (hdo : ∀ s cmd, isNavCmd cmd = false → (load s cmd).navCmdLoaded = s.navCmdLoaded)
    {v : ℕ × State} (hv : 1 ≤ v.1) :
    ∃ r, Loop.Returns (setCurrentCmdBody l load stop finish) v r := by
  obtain ⟨rank, hrank⟩ := Loop.exists_rank (finite_leads l) hacyclic
  let measure : ℕ × State → ℕ ×ₗ ℕ ×ₗ ℕ := fun v =>
    toLex (if v.2.navCmdLoaded then 0 else 1, toLex (v.2.tracking.weight, rank (v.1 - 1)))
  refine Loop.exists_returns (I := fun v => 1 ≤ v.1) (InvImage.wf measure wellFounded_lt) ?_ hv
  intro v v' hv h
  obtain ⟨hloaded, cmd, tracking, hg, rfl⟩ := setCurrentCmdBody_inr h
  refine ⟨Nat.le_add_left 1 _, ?_⟩
  show measure _ < measure v
  cases hcmd : isNavCmd cmd with
  | true =>
    refine Prod.Lex.toLex_lt_toLex.2 (.inl ?_)
    simp [hloaded, hnav _ _ hcmd]
  | false =>
    refine Prod.Lex.toLex_lt_toLex.2 (.inr ⟨by simp [hloaded, hdo _ _ hcmd], ?_⟩)
    refine Prod.Lex.toLex_lt_toLex.2 ?_
    simp only [htracking, Nat.add_sub_cancel]
    obtain hlt | ⟨hle, hnav' | hland⟩ := weight_getNextCmd hg
    · exact .inl hlt
    · cases hcmd.symm.trans hnav'
    · obtain hlt | heq := Nat.lt_or_eq_of_le hle
      · exact .inl hlt
      · refine .inr ⟨heq, hrank _ _ ?_⟩
        rw [Leads, Nat.sub_add_cancel hv, hland]

end Loop

/-! ## With a cycle -/

/-- No counted jump is left. -/
def Settled (l : CommandList) (tracking : JumpTracking) : Prop :=
  ∀ i < l.total, l.IsJump i → l.invalidTarget (l.cmdAt i) = false →
    follow l true tracking (l.cmdAt i) = (l.settledNext i, tracking)

/-- No entry is free. -/
def fullTracking : JumpTracking := ⟨replicate 15 ⟨65534, 0⟩, rfl⟩

theorem settled_fullTracking (l : CommandList) : Settled l fullTracking := by
  intro i hi hj hv
  have hrun : ∀ n, timesRun (replicate n ⟨65534, 0⟩) i =
      (jumpTimesMax, replicate n ⟨65534, 0⟩) := by
    intro n
    have := l.small
    induction n with
    | zero => rfl
    | succ n ih =>
      rw [replicate_succ, timesRun, if_neg (show 65534 ≠ i by omega), if_neg (by decide), ih]
  unfold CommandList.settledNext
  by_cases h : l.numTimes i = -1
  · rw [follow_of_forever h, if_pos h]
  · have htimes : fullTracking.times i = jumpTimesMax := congrArg Prod.fst (hrun 15)
    have hnoted : fullTracking.noted i = fullTracking := by
      rw [JumpTracking.noted, fullTracking, JumpTracking.mk.injEq]
      exact congrArg Prod.snd (hrun 15)
    rw [follow_of_counted hj hv h, if_neg h, htimes, hnoted, if_neg]
    exact not_lt.2 (jumpNumTimes_le _)

/-- A stopped mission with a full table. -/
def trackingFull : State := { (default : State) with tracking := fullTracking }

theorem getNextCmd_of_settled (hs : Settled l tracking) {d : ℕ} (h : l.landing 64 i = some d) :
    getNextCmd l i true tracking = (some (l.cmdAt d), tracking) := by
  have hsearch : ∀ n j i, l.landing n i = some d → Loop.Returns (getNextCmdBody l true)
      ⟨i, j, n, tracking⟩ (some (l.cmdAt d), tracking) := by
    intro n
    induction n with
    | zero =>
      intro j i h
      simp only [CommandList.landing] at h
      split_ifs at h with hle hj hnav
      obtain rfl := some.inj h
      exact .leave (getNextCmdBody_of_not_isJump (not_le.1 hle) hj)
    | succ n ih =>
      intro j i h
      rw [CommandList.landing] at h
      split_ifs at h with hle hj hv hnav
      · have hv' := eq_false_of_ne_true hv
        refine .next (getNextCmdBody_of_jump (not_le.1 hle) hj ?_) ?_
        · simp [Search.Blocked, hv']
        · rw [Search.jumped, hs i (not_le.1 hle) hj hv']
          exact ih _ _ h
      · obtain rfl := some.inj h
        exact .leave (getNextCmdBody_of_not_isJump (not_le.1 hle) hj)
  exact getNextCmd_eq (hsearch 64 indexNone i h)

/-- A stopped and settled mission hangs at a do command that leads back to itself. -/
theorem setCurrentCmd_of_cycle {s : State} (hs : Settled l s.tracking) (hstopped : s.state = .stopped)
    {d : ℕ} (h : TransGen (Leads l) d d) (fuel : ℕ) : setCurrentCmd fuel l s d = none := by
  obtain ⟨d', -, hlast⟩ := TransGen.tail'_iff.1 h
  obtain ⟨hlt, hj, hdo⟩ := landing_some hlast
  have hzero : d ≠ 0 := by
    rintro rfl
    cases hdo.symm.trans (isNavCmd_cmdAt_zero l)
  have hprepare : prepareCurrentCmd s d = (d, { s.stopDoCmd with navCmdLoaded := false }) := by
    rw [prepareCurrentCmd, if_neg]
    simp [hzero, State.stopDoCmd, hstopped]
  rw [setCurrentCmd, if_neg (by omega), hstopped, if_neg (by decide), hprepare]
  cases hexec : Loop.exec (setStoppedBody l) fuel _ with
  | none => rfl
  | some r =>
    refine absurd (Loop.returns_of_exec hexec) (Loop.not_returns (I := fun v =>
      v.2.navCmdLoaded = false ∧ v.2.tracking = s.tracking ∧
        ∃ d, l.landing 64 v.1 = some d ∧ TransGen (Leads l) d d) ?_ ?_ r)
    · rintro ⟨i, s'⟩ ⟨hloaded, htracking, d, hland, hcycle⟩
      have hg := getNextCmd_of_settled hs hland
      obtain ⟨d', hlead, hback⟩ := TransGen.head'_iff.1 hcycle
      refine ⟨(d + 1, loadStopped s' (l.cmdAt d)), ?_, ?_, ?_, d', hlead, .tail' hback hlead⟩
      · rw [← htracking] at hg
        rw [setStoppedBody, setCurrentCmdBody_of_some hloaded hg, index_cmdAt]
      · have hdo := (landing_some hland).2.2
        rw [loadStopped, if_neg (by simp [hdo])]
        split_ifs <;> exact hloaded
      · have hdo := (landing_some hland).2.2
        rw [loadStopped, if_neg (by simp [hdo])]
        split_ifs <;> exact htracking
    · exact ⟨rfl, rfl, d, landing_of_not_isJump hlt hj hdo, h⟩

/-! ## The calls -/

/-- The calls with a loop. -/
inductive Call where
  | setCurrentCmd (index : ℕ)
  | advanceCurrentNavCmd
  | advanceCurrentDoCmd
  | getNextCmd (startIndex : ℕ) (increment : Bool)
  | getNextNavCmd (startIndex : ℕ)

/-- The loop of the call is left. -/
def Call.Returns (l : CommandList) (s : State) : Call → Prop
  | setCurrentCmd index => ∃ fuel r, Mission.setCurrentCmd fuel l s index = some r
  | advanceCurrentNavCmd => s.state ≠ .running ∨ s.navCmdLoaded = true ∨
      ∃ r, Loop.Returns (advanceCurrentNavCmdBody l) (.start s) r
  | advanceCurrentDoCmd => ∃ r, Loop.Returns (getNextCmdBody l false)
      (.start (if s.doCmd.index = indexNone then firstRealCommand else s.doCmd.index + 1)
        s.tracking) r
  | getNextCmd startIndex increment =>
      ∃ r, Loop.Returns (getNextCmdBody l increment) (.start startIndex s.tracking) r
  | getNextNavCmd startIndex => ∃ r, Loop.Returns (getNextNavCmdBody l) (startIndex, s.tracking) r

theorem setCurrentCmd_returns (hacyclic : ∀ d, ¬TransGen (Leads l) d d) (s : State) (index : ℕ) :
    ∃ fuel r, setCurrentCmd fuel l s index = some r := by
  by_cases hout : index ≥ l.total ∨ l.total = 1
  · exact ⟨0, (false, s), if_pos hout⟩
  · have hstart : 1 ≤ (prepareCurrentCmd s index).1 := by
      rw [prepareCurrentCmd]
      split_ifs <;> dsimp only <;> omega
    have hreturns : ∃ r, Loop.Returns
        (if s.state = .running then setRunningBody l else setStoppedBody l)
        (prepareCurrentCmd s index) r := by
      split_ifs
      · refine exists_returns_setCurrentCmdBody hacyclic (fun s cmd => ?_) (fun s cmd h => ?_)
          (fun s cmd h => ?_) hstart <;> simp only [loadRunning]
        · split_ifs <;> rfl
        · rw [if_pos h]
          rfl
        · rw [if_neg (by simp [h])]
          split_ifs <;> rfl
      · refine exists_returns_setCurrentCmdBody hacyclic (fun s cmd => ?_) (fun s cmd h => ?_)
          (fun s cmd h => ?_) hstart <;> simp only [loadStopped]
        · split_ifs <;> rfl
        · rw [if_pos h]
        · rw [if_neg (by simp [h])]
          split_ifs <;> rfl
    obtain ⟨r, hr⟩ := hreturns
    obtain ⟨fuel, hexec⟩ := Loop.exists_exec_iff.2 hr
    refine ⟨fuel, r, ?_⟩
    rw [setCurrentCmd, if_neg hout, hexec]

/-- All calls return exactly when no do command leads back to itself for ever. -/
theorem calls_return_iff (l : CommandList) :
    (∀ (s : State) (call : Call), call.Returns l s) ↔ ∀ d, ¬TransGen (Leads l) d d := by
  constructor
  · intro h d hcycle
    obtain ⟨fuel, r, hr⟩ := h trackingFull (.setCurrentCmd d)
    have hnone := setCurrentCmd_of_cycle (s := trackingFull) (settled_fullTracking l) rfl hcycle fuel
    cases hr.symm.trans hnone
  · intro hacyclic s call
    cases call with
    | setCurrentCmd index => exact setCurrentCmd_returns hacyclic s index
    | advanceCurrentNavCmd => exact .inr (.inr ⟨_, returns_advanceCurrentNavCmd l s⟩)
    | advanceCurrentDoCmd => exact ⟨_, returns_getNextCmd l _ false s.tracking⟩
    | getNextCmd startIndex increment => exact ⟨_, returns_getNextCmd l _ increment s.tracking⟩
    | getNextNavCmd startIndex => exact ⟨_, returns_getNextNavCmd l startIndex s.tracking⟩

/-- A do command and a jump back to it. -/
def jumpBack : CommandList := .ofList [⟨203, 0, .zero⟩, ⟨doJump, 0, .jump 1 (-1)⟩] (by decide)

/-- After `reset`, setting the current command to the first one of this mission hangs. -/
theorem setCurrentCmd_jumpBack_hangs :
    ¬(Call.setCurrentCmd 1).Returns jumpBack (reset default) := by
  rintro ⟨fuel, r, hr⟩
  have hsettled : Settled jumpBack initJumpTracking := by
    intro i hi hj hv
    have hi : i < 3 := hi
    interval_cases i
    · exact absurd hj (by decide +kernel)
    · exact absurd hj (by decide +kernel)
    · decide +kernel
  have hlead : Leads jumpBack 1 1 := by
    show jumpBack.landing 64 2 = some 1
    decide +kernel
  have hcycle : TransGen (Leads jumpBack) 1 1 := .single hlead
  cases hr.symm.trans (setCurrentCmd_of_cycle (s := reset default) hsettled rfl hcycle fuel)

end Tm4cPilot.Mission
