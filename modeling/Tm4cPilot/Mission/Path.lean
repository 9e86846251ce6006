import Tm4cPilot.Mission.Tracking

/-!
# Do commands and the flown path

`advance_current_do_cmd` walks the way of `advance_current_nav_cmd` again, with the jump counts as
they are then. It finds the same commands if the first walk used up no jump on the way.
-/

namespace Tm4cPilot.Mission

open List

/-- The commands found by the last walk, the newest first. -/
def path : List Event → List Command
  | [] => []
  | .advance _ :: _ => []
  | .found cmd :: log => cmd :: path log
  | _ :: log => path log

/-- The tracking with which the last walk began. -/
def before : List Event → JumpTracking
  | [] => initJumpTracking
  | .advance tracking :: _ => tracking
  | _ :: log => before log

/-- Do commands are started from the path. -/
def OnPath (log : List Event) : Prop :=
  ∀ cmd older, Event.start cmd :: older <:+ log → isNavCmd cmd = false → cmd ∈ path older

/-- The jumps on the way from a position, by the given counts. -/
def jumpsOn (l : CommandList) (tracking : JumpTracking) : ℕ → ℕ → List ℕ
  | n, i =>
    if i ≥ l.total ∨ ¬l.IsJump i then []
    else
      match n with
      | 0 => []
      | n + 1 =>
        if l.invalidTarget (l.cmdAt i) then []
        else i :: jumpsOn l tracking n (if l.Taken tracking i then l.target i else i + 1)

/-- The last walk used up no jump before the next do command. -/
def Steady (l : CommandList) (s : State) (verify : Command → Bool) : Prop :=
  s.state = .running → verify s.navCmd = false → s.doCmdLoaded = false → s.doCmdAllDone = false →
    ∀ j ∈ jumpsOn l s.tracking 64 s.nextDoIndex, l.Taken (before s.log) j → l.Taken s.tracking j

variable {l : CommandList} {log : List Event} {b now : JumpTracking} {i : ℕ}

theorem onPath_cons {e : Event} (h : OnPath log)
    (he : ∀ cmd, e = .start cmd → isNavCmd cmd = false → cmd ∈ path log) : OnPath (e :: log) := by
  intro cmd older hsuffix
  rcases suffix_cons_iff.1 hsuffix with heq | hsuffix
  · obtain ⟨rfl, rfl⟩ := cons.inj heq
    exact he cmd rfl
  · exact h cmd older hsuffix

/-! ## The same way twice -/

theorem jumpsOn_of_isJump {n : ℕ} (h : i < l.total) (hj : l.IsJump i)
    (hv : l.invalidTarget (l.cmdAt i) = false) :
    jumpsOn l now (n + 1) i =
      i :: jumpsOn l now n (if l.Taken now i then l.target i else i + 1) := by
  rw [jumpsOn, if_neg (by simp [hj, h]), hv]
  rfl

/-- A search goes where an earlier one went that used up no jump on the way. -/
theorem returns_same {v v' : Search} {r r' : Option Command × JumpTracking} {cmd : Command}
    (hr : Loop.Returns (getNextCmdBody l false) v r)
    (hr' : Loop.Returns (getNextCmdBody l true) v' r') (hv : v.tracking = now)
    (hindex : v'.cmdIndex = v.cmdIndex) (hloops : v'.maxLoops = v.maxLoops)
    (hpacked : v'.tracking.Packed) (hb : b.Grows v'.tracking) (hnow : r'.2.Grows now)
    (hsteady : ∀ j ∈ jumpsOn l now v.maxLoops v.cmdIndex, l.Taken b j → l.Taken now j)
    (hcmd : r.1 = some cmd) : r'.1 = some cmd := by
  induction hr generalizing v' with
  | @leave v r hleave =>
    obtain ⟨-, hnone | ⟨hlt, hj, hsome⟩⟩ := getNextCmdBody_inl hleave
    · cases hcmd.symm.trans hnone
    · have hfound : getNextCmdBody l true v' = .inl (some (l.cmdAt v'.cmdIndex), v'.tracking) :=
        getNextCmdBody_of_not_isJump (hindex.symm ▸ hlt) (hindex.symm ▸ hj)
      rw [hr'.unique (.leave hfound), hindex, ← hcmd, hsome]
  | @next v v₁ r hnext _ ih =>
    obtain ⟨hlt, hj, hnb, rfl⟩ := getNextCmdBody_inr hnext
    simp only [Search.Blocked, not_or] at hnb
    obtain ⟨hpos, hvalid, -⟩ := hnb
    have hvalid := eq_false_of_ne_true hvalid
    -- the counting search is at the same jump and goes on as well
    have hnext' : getNextCmdBody l true v' = .inr (v'.jumped l true) := by
      refine getNextCmdBody_of_jump (hindex.symm ▸ hlt) (hindex.symm ▸ hj) ?_
      simp [Search.Blocked, hloops, hpos, hindex, hvalid]
    have hr'' := hr'.of_inr hnext'
    have hfollow := follow_grows true hpacked hlt hj hvalid
    rw [← hindex] at hfollow
    obtain ⟨hpacked₁, hgrows₁, hknown⟩ := hfollow
    have hrest : (v'.jumped l true).tracking.Grows now :=
      (returns_grows hr'' hpacked₁).2.trans hnow
    obtain ⟨n, hn⟩ : ∃ n, v.maxLoops = n + 1 := ⟨v.maxLoops - 1, by omega⟩
    rw [hn, jumpsOn_of_isJump hlt hj hvalid] at hsteady
    have htaken : l.Taken v'.tracking v.cmdIndex ↔ l.Taken now v.cmdIndex :=
      ⟨fun h => hsteady _ mem_cons_self (taken_of_grows hb hlt h),
        taken_of_grows (hgrows₁.trans hrest) hlt⟩
    have hstay : (follow l false v.tracking (l.cmdAt v.cmdIndex)).2 = now := by
      by_cases hforever : l.numTimes v.cmdIndex = -1
      · rw [follow_of_forever hforever, hv]
      · have hnoted : now.noted v.cmdIndex = now :=
          (hrest _ (l.ne_indexNone hlt)).2 (hindex ▸ hknown (hindex.symm ▸ hforever))
        rw [follow_of_counted hj hvalid hforever, hv, hnoted, if_neg Bool.false_ne_true]
        split_ifs <;> rfl
    refine ih hr'' hstay ?_ ?_ hpacked₁ (hb.trans hgrows₁) ?_ hcmd
    · simp only [Search.jumped, hindex]
      rw [follow_fst hj hvalid, follow_fst hj hvalid, hv]
      simp only [htaken]
    · simp only [Search.jumped, hloops]
    · simp only [Search.jumped, hn, Nat.add_sub_cancel]
      rw [follow_fst hj hvalid, hv]
      exact fun j hj' => hsteady j (mem_cons_of_mem _ hj')

/-- The do command found is the one that the earlier search found. -/
theorem getNextCmd_same {tracking tracking₁ tracking₂ : JumpTracking} {r : Option Command}
    {cmd : Command} (hpacked : tracking.Packed) (hb : b.Grows tracking)
    (hg : getNextCmd l i true tracking = (r, tracking₁)) (hnow : tracking₁.Grows now)
    (hsteady : ∀ j ∈ jumpsOn l now 64 i, l.Taken b j → l.Taken now j)
    (hg' : getNextCmd l i false now = (some cmd, tracking₂)) : r = some cmd := by
  have hr := returns_getNextCmd l i false now
  have hr' := returns_getNextCmd l i true tracking
  rw [hg'] at hr
  rw [hg] at hr'
  exact returns_same hr hr' rfl rfl rfl hpacked hb hnow hsteady rfl

/-! ## The walk of `advance_current_nav_cmd` -/

/-- A search has found the next command of the path. -/
def Continued (l : CommandList) (b now : JumpTracking) (cmds : List Command) (d : Command) : Prop :=
  ∃ tracking tracking' cmd, tracking.Packed ∧ b.Grows tracking ∧
    getNextCmd l (d.index + 1) true tracking = (some cmd, tracking') ∧ tracking'.Grows now ∧
    cmd ∈ cmds

theorem Continued.mono {now' : JumpTracking} {cmds cmds' : List Command} {d : Command}
    (h : Continued l b now cmds d) (hnow : now.Grows now') (hcmds : cmds ⊆ cmds') :
    Continued l b now' cmds' d := by
  obtain ⟨tracking, tracking', cmd, hpacked, hb, hg, hgrows, hmem⟩ := h
  exact ⟨tracking, tracking', cmd, hpacked, hb, hg, hgrows.trans hnow, hcmds hmem⟩

/-- The do command is on the path. -/
def DoOnPath (l : CommandList) (s : State) : Prop :=
  s.doCmd ∈ path s.log ∧ isNavCmd s.doCmd = false ∧ s.doCmd.index < l.total

/-- Only the search behind the last command is to come. -/
structure Tracing (l : CommandList) (w : Walk) : Prop where
  onPath : OnPath w.state.log
  packed : w.state.tracking.Packed
  grows : (before w.state.log).Grows w.state.tracking
  current : w.state.doCmdLoaded = true → DoOnPath l w.state
  continued : ∀ d ∈ path w.state.log, isNavCmd d = false →
    w.state.navCmdLoaded = false ∧ d.index + 1 = w.cmdIndex ∨
      Continued l (before w.state.log) w.state.tracking (path w.state.log) d

theorem Tracing.next {w w' : Walk} (h : Tracing l w)
    (hb : advanceCurrentNavCmdBody l w = .inr w') : Tracing l w' := by
  obtain ⟨cmd, tracking, hloaded, hg, hindex, hcases⟩ := advanceCurrentNavCmdBody_inr hb
  obtain ⟨hpacked, hgrows⟩ := getNextCmd_grows h.packed hg
  obtain ⟨hlt, -⟩ := getNextCmd_some hg
  have hfound : OnPath (.found cmd :: w.state.log) := onPath_cons h.onPath fun _ => nofun
  have hcontinued : ∀ d ∈ path w.state.log, isNavCmd d = false →
      Continued l (before w.state.log) tracking (cmd :: path w.state.log) d := by
    intro d hd hdo
    obtain ⟨-, hd'⟩ | hd' := h.continued d hd hdo
    · exact ⟨_, _, cmd, h.packed, h.grows, hd' ▸ hg, .refl _, mem_cons_self⟩
    · exact hd'.mono hgrows (subset_cons_self _ _)
  obtain ⟨hnav, -, hs⟩ | ⟨hdo, -, -, hs⟩ | ⟨hdo, hsome, -, hs⟩ := hcases
  · refine ⟨?_, ?_, ?_, fun hdo => ?_, fun d hd hdo => .inr ?_⟩
    · rw [hs]
      refine onPath_cons hfound fun cmd' hcmd' hdo => ?_
      obtain rfl := Event.start.inj hcmd'
      cases hnav.symm.trans hdo
    · exact hs ▸ hpacked
    · exact hs ▸ h.grows.trans hgrows
    · rw [hs] at hdo ⊢
      exact (h.current hdo).imp_left (mem_cons_of_mem cmd)
    · rw [hs] at hd ⊢
      rcases mem_cons.1 hd with rfl | hd
      · cases hnav.symm.trans hdo
      · exact hcontinued d hd hdo
  · refine ⟨?_, ?_, ?_, fun _ => ?_, fun d hd hdo => ?_⟩
    · rw [hs]
      refine onPath_cons hfound fun cmd' hcmd' _ => ?_
      obtain rfl := Event.start.inj hcmd'
      exact mem_cons_self
    · exact hs ▸ hpacked
    · exact hs ▸ h.grows.trans hgrows
    · rw [hs]
      exact ⟨mem_cons_self, hdo, hlt⟩
    · rw [hs] at hd ⊢
      rcases mem_cons.1 hd with rfl | hd
      · exact .inl ⟨hloaded, hindex.symm⟩
      · exact .inr (hcontinued d hd hdo)
  · refine ⟨?_, ?_, ?_, fun _ => ?_, fun d hd hdo => ?_⟩
    · exact hs ▸ hfound
    · exact hs ▸ hpacked
    · exact hs ▸ h.grows.trans hgrows
    · rw [hs]
      exact (h.current hsome).imp_left (mem_cons_of_mem cmd)
    · rw [hs] at hd ⊢
      rcases mem_cons.1 hd with rfl | hd
      · exact .inl ⟨hloaded, hindex.symm⟩
      · exact .inr (hcontinued d hd hdo)

variable {s : State}

theorem tracing_start (h : OnPath s.log) (hpacked : s.tracking.Packed) : Tracing l (.start s) where
  onPath := onPath_cons h fun _ => nofun
  packed := hpacked
  grows := .refl _
  current := nofun
  continued := nofun

/-- The path of the last walk is closed. -/
structure Traced (l : CommandList) (s : State) : Prop where
  loaded : s.navCmdLoaded = true
  packed : s.tracking.Packed
  current : s.doCmdLoaded = true ∨ s.doCmdAllDone = false → DoOnPath l s
  continued : ∀ d ∈ path s.log, isNavCmd d = false →
    Continued l (before s.log) s.tracking (path s.log) d

/-- The invariant of a run. -/
def Course (l : CommandList) (s : State) : Prop :=
  OnPath s.log ∧ (s.state = .running → Traced l s)

theorem advanceCurrentNavCmd_traced (hrun : s.state = .running) (hnav : s.navCmdLoaded = false)
    (h : OnPath s.log) (hpacked : s.tracking.Packed) :
    OnPath (advanceCurrentNavCmd l s).2.log ∧
      ((advanceCurrentNavCmd l s).1 = true → Traced l (advanceCurrentNavCmd l s).2) := by
  rw [advanceCurrentNavCmd, if_neg (by simp [hrun, hnav])]
  refine (returns_advanceCurrentNavCmd l s).invariant (I := Tracing l)
    (Q := fun r => OnPath r.2.log ∧ (r.1 = true → Traced l r.2)) (fun _ _ => Tracing.next) ?_
    (tracing_start h hpacked)
  intro w r hw hb
  obtain ⟨hloaded, rfl⟩ | ⟨-, hfalse, hlog⟩ := advanceCurrentNavCmdBody_inl hb
  · refine ⟨(noteDoCmd_log _).symm ▸ hw.onPath, fun _ => ?_⟩
    constructor <;> simp only [noteDoCmd_navCmdLoaded, noteDoCmd_tracking, noteDoCmd_log]
    · exact hloaded
    · exact hw.packed
    · intro hdo
      have hdo : w.state.doCmdLoaded = true := by
        simp only [noteDoCmd_doCmdLoaded, noteDoCmd_doCmdAllDone, Bool.or_eq_false_iff,
          Bool.not_eq_false'] at hdo
        exact hdo.elim id And.right
      simpa only [DoOnPath, noteDoCmd_doCmd, noteDoCmd_log] using hw.current hdo
    · intro d hd hdo
      exact (hw.continued d hd hdo).resolve_left fun h => by cases hloaded.symm.trans h.1
  · refine ⟨?_, fun htrue => by cases hfalse.symm.trans htrue⟩
    obtain hlog | ⟨cmd, hlog⟩ := hlog <;> rw [hlog]
    · exact hw.onPath
    · exact onPath_cons hw.onPath fun _ => nofun

/-! ## Updates -/

theorem Traced.updateDoCmd (h : Traced l s) (hpath : OnPath s.log) {verify : Command → Bool}
    (hsteady : s.state = .running → s.doCmdLoaded = false → s.doCmdAllDone = false →
    ∀ j ∈ jumpsOn l s.tracking 64 s.nextDoIndex, l.Taken (before s.log) j → l.Taken s.tracking j) :
    Course l (updateDoCmd l verify s) := by
  cases hloaded : s.doCmdLoaded with
  | true =>
    rw [Mission.updateDoCmd, if_neg (by simp [hloaded])]
    exact ⟨onPath_cons hpath fun _ => nofun, fun _ =>
      ⟨h.loaded, h.packed, fun _ => h.current (.inl hloaded), h.continued⟩⟩
  | false =>
    rw [Mission.updateDoCmd, if_pos (by simp [hloaded])]
    obtain heq | ⟨tracking, htracking, heq⟩ | ⟨cmd, tracking, hrun, hall, hdo, hg, heq⟩ :=
      advanceCurrentDoCmd_cases l s <;> rw [heq]
    · exact ⟨hpath, fun _ => h⟩
    · obtain ⟨hpacked, hgrows⟩ : tracking.Packed ∧ s.tracking.Grows tracking := by
        obtain rfl | rfl := htracking
        · exact ⟨h.packed, .refl _⟩
        · exact getNextCmd_grows h.packed rfl
      exact ⟨hpath, fun _ => ⟨h.loaded, hpacked, by simp [hloaded], fun d hd hdo =>
        (h.continued d hd hdo).mono hgrows (List.Subset.refl _)⟩⟩
    · obtain ⟨hmem, hdo', hlt⟩ := h.current (.inr hall)
      have hnext : s.nextDoIndex = s.doCmd.index + 1 := if_neg (l.ne_indexNone hlt)
      obtain ⟨hpacked, hgrows⟩ := getNextCmd_grows h.packed hg
      have hfound : cmd ∈ path s.log := by
        obtain ⟨_, _, cmd', hpacked', hb, hg', hnow, hcmd'⟩ := h.continued _ hmem hdo'
        rw [← hnext] at hg'
        have hsame := getNextCmd_same hpacked' hb hg' hnow (hsteady hrun hloaded hall) hg
        exact Option.some.inj hsame ▸ hcmd'
      refine ⟨onPath_cons hpath fun cmd' hcmd' _ => ?_, fun _ => ⟨h.loaded, hpacked, fun _ => ?_, ?_⟩⟩
      · obtain rfl := Event.start.inj hcmd'
        exact hfound
      · exact ⟨hfound, hdo, (getNextCmd_some hg).1⟩
      · exact fun d hd hdo => (h.continued d hd hdo).mono hgrows (List.Subset.refl _)

theorem advanceCurrentNavCmd_doCmd (h : (advanceCurrentNavCmd l s).1 = true) :
    (advanceCurrentNavCmd l s).2.doCmdLoaded = true ∨
      (advanceCurrentNavCmd l s).2.doCmdAllDone = true := by
  rw [advanceCurrentNavCmd] at h ⊢
  split_ifs at h ⊢
  refine (returns_advanceCurrentNavCmd l s).invariant (I := fun _ => True)
    (Q := fun r => r.1 = true → r.2.doCmdLoaded = true ∨ r.2.doCmdAllDone = true)
    (fun _ _ _ _ => trivial) (fun w r _ hb htrue => ?_) trivial h
  obtain ⟨-, rfl⟩ | ⟨-, hfalse, -⟩ := advanceCurrentNavCmdBody_inl hb
  · cases hdo : w.state.doCmdLoaded with
    | true => exact .inl ((noteDoCmd_doCmdLoaded _).trans hdo)
    | false => exact .inr (by simp [hdo])
  · cases hfalse.symm.trans htrue

theorem course_updateNext (hrun : s.state = .running) (hnav : s.navCmdLoaded = false)
    (h : OnPath s.log) (hpacked : s.tracking.Packed) (verify : Command → Bool) :
    Course l (updateNext l verify s) := by
  obtain ⟨hpath, htraced⟩ := advanceCurrentNavCmd_traced (l := l) hrun hnav h hpacked
  rw [updateNext]
  cases hr : (advanceCurrentNavCmd l s).1 with
  | false =>
    exact ⟨onPath_cons hpath fun _ => nofun, nofun⟩
  | true =>
    refine (htraced hr).updateDoCmd hpath fun _ hloaded hall => ?_
    rcases advanceCurrentNavCmd_doCmd hr with hdo | hdo
    · cases hloaded.symm.trans hdo
    · cases hall.symm.trans hdo

theorem Course.update (h : Course l s) {verify : Command → Bool} (hsteady : Steady l s verify) :
    Course l (update l s verify) := by
  by_cases hskip : s.state ≠ .running ∨ l.total = 0
  · rw [Mission.update, if_pos hskip]
    exact h
  · rw [not_or, not_not] at hskip
    obtain ⟨hrun, htotal⟩ := hskip
    have htraced := h.2 hrun
    have hverified : OnPath (.verify s.navCmd (verify s.navCmd) :: s.log) :=
      onPath_cons h.1 fun _ => nofun
    rw [Mission.update, if_neg (by simp [hrun, htotal])]
    by_cases hindex : s.navCmd.index = indexNone
    · -- a loaded command without an index: the walk is refused and the mission completes
      have hrefused : advanceCurrentNavCmd l s = (false, s) := if_pos (.inr htraced.loaded)
      rw [if_pos (.inr hindex), updateNext, hrefused, if_neg (by simp)]
      exact ⟨onPath_cons h.1 fun _ => nofun, nofun⟩
    · rw [if_neg (by simp [htraced.loaded, hindex])]
      cases hverify : verify s.navCmd with
      | true =>
        rw [hverify] at hverified
        refine course_updateNext ?_ rfl hverified ?_ verify
        · exact hrun
        · exact htraced.packed
      | false =>
        rw [hverify] at hverified
        refine Traced.updateDoCmd ?_ hverified fun _ => hsteady hrun hverify
        exact ⟨htraced.loaded, htraced.packed, htraced.current, htraced.continued⟩

theorem course_start (h : OnPath s.log) : Course l (start l s) := by
  have hpath : OnPath (reset { s with state := .running }).log := h
  obtain ⟨hpath, htraced⟩ :=
    advanceCurrentNavCmd_traced (l := l) rfl rfl hpath packed_initJumpTracking
  rw [start]
  cases hr : (advanceCurrentNavCmd l (reset { s with state := .running })).1 with
  | false =>
    exact ⟨onPath_cons hpath fun _ => nofun, nofun⟩
  | true =>
    exact ⟨hpath, fun _ => htraced hr⟩

/-- If no update meets a jump used up by the last walk, the do commands lie on its path. -/
theorem run_onPath (l : CommandList) (s : State) (answers : List (Command → Bool))
    (h : Run.Along (update l) (Steady l) (start l { s with log := [] }) answers) :
    OnPath (Run.run (update l) (start l { s with log := [] }) answers).log := by
  have hnil : OnPath [] := fun _ _ h => by simp at h
  exact (h.invariant (I := Course l) (fun _ _ hsteady hs => hs.update hsteady)
    (course_start hnil)).1

/-- A jump over a waypoint. -/
def detour (numTimes : ℤ) : CommandList :=
  .ofList [⟨16, 0, .zero⟩, ⟨203, 0, .zero⟩, ⟨doJump, 0, .jump 5 numTimes⟩, ⟨183, 0, .zero⟩,
    ⟨16, 0, .zero⟩] (by simp)

/-- What the callback answers. -/
def detourAnswers : List (Command → Bool) := [fun cmd => cmd.index ≤ 2, fun _ => false]

/-- With a jump that repeats for ever, the run goes past the servo command. -/
theorem detour_forever_onPath :
    Run.Along (update (detour (-1))) (Steady (detour (-1)))
        (start (detour (-1)) { (default : State) with log := [] }) detourAnswers ∧
      OnPath (Run.run (update (detour (-1)))
        (start (detour (-1)) { (default : State) with log := [] }) detourAnswers).log := by
  have h : Run.Along (update (detour (-1))) (Steady (detour (-1)))
      (start (detour (-1)) { (default : State) with log := [] }) detourAnswers := by
    refine ⟨?_, ?_, trivial⟩ <;> unfold Steady <;> decide +kernel
  exact ⟨h, run_onPath _ default _ h⟩

/-- With a single jump, the servo command is started although the walk has jumped over it. -/
theorem detour_once_not_onPath :
    ¬OnPath (Run.run (update (detour 1))
      (start (detour 1) { (default : State) with log := [] }) detourAnswers).log := by
  intro h
  exact absurd (h _ _ suffix_rfl (by decide +kernel)) (by decide +kernel)

end Tm4cPilot.Mission
