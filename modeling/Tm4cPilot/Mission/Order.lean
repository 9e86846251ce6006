import Tm4cPilot.Mission.Search

/-!
# The order of a mission without jumps

`start` and `update` go through a list without DO_JUMP commands from front to back. The invariant
ties the log to the index of the current navigation command.
-/

namespace Tm4cPilot.Mission

open List Event

/-! ## What a log says -/

/-- The navigation command started. -/
def Event.navStart : Event → Option ℕ
  | .start cmd => if isNavCmd cmd then some cmd.index else none
  | _ => none

/-- The do command started. -/
def Event.doStart : Event → Option ℕ
  | .start cmd => if isNavCmd cmd then none else some cmd.index
  | _ => none

/-- The navigation commands started. -/
def navStarted (log : List Event) : List ℕ := log.filterMap Event.navStart

/-- The do commands started. -/
def doStarted (log : List Event) : List ℕ := log.filterMap Event.doStart

namespace CommandList

/-- A navigation command behind home. -/
def IsNav (l : CommandList) (i : ℕ) : Prop := 1 ≤ i ∧ isNavCmd (l.cmdAt i) = true
deriving Decidable

/-- Those in front of `i`. -/
def navsUpTo (l : CommandList) (i : ℕ) : List ℕ := (range i).filter (l.IsNav ·)

/-- Those of the list. -/
def navs (l : CommandList) : List ℕ := l.navsUpTo l.total

end CommandList

/-- Do commands wait for the navigation command in front. -/
def InTurn (l : CommandList) (log : List Event) : Prop :=
  ∀ cmd older, Event.start cmd :: older <:+ log → isNavCmd cmd = false →
    ∀ b a, l.IsNav b → l.IsNav a → b < a → a < cmd.index → Event.verify (l.cmdAt b) true ∈ older

/-- Commands are started in list order. -/
structure InOrder (l : CommandList) (log : List Event) : Prop where
  navs : (navStarted log).reverse <+: l.navs
  dos : (doStarted log).reverse.Pairwise (· < ·)
  turn : InTurn l log

/-- What a step has logged. -/
def newEvents (s s' : State) : List Event := s'.log.take (s'.log.length - s.log.length)

/-- A step completes the mission exactly if it runs at its last navigation command, and this
verifies. -/
def CompletesAtLast (l : CommandList) (verify : Command → Bool) (s s' : State) : Prop :=
  Event.complete ∈ newEvents s s' ↔
    s.state = .running ∧ l.navs.getLast?.map l.cmdAt = some s.navCmd ∧ verify s.navCmd = true

variable {l : CommandList} {i : ℕ} {log : List Event}

variable {s s' : State}

theorem newEvents_eq {new : List Event} (h : s'.log = new ++ s.log) : newEvents s s' = new := by
  rw [newEvents, h, length_append, Nat.add_sub_cancel, take_left]

variable {cmd : Command}

theorem navStarted_start_nav (h : isNavCmd cmd = true) :
    navStarted (.start cmd :: log) = cmd.index :: navStarted log := by
  simp [navStarted, navStart, h]

theorem navStarted_start_do (h : isNavCmd cmd = false) :
    navStarted (.start cmd :: log) = navStarted log := by
  simp [navStarted, navStart, h]

theorem doStarted_start_nav (h : isNavCmd cmd = true) :
    doStarted (.start cmd :: log) = doStarted log := by
  simp [doStarted, doStart, h]

theorem doStarted_start_do (h : isNavCmd cmd = false) :
    doStarted (.start cmd :: log) = cmd.index :: doStarted log := by
  simp [doStarted, doStart, h]

theorem navsUpTo_succ_of_isNav (h : l.IsNav i) : l.navsUpTo (i + 1) = l.navsUpTo i ++ [i] := by
  simp [CommandList.navsUpTo, range_succ, filter_append, h]

theorem navsUpTo_succ_of_not_isNav (h : ¬l.IsNav i) : l.navsUpTo (i + 1) = l.navsUpTo i := by
  simp [CommandList.navsUpTo, range_succ, filter_append, h]

theorem navsUpTo_isPrefixOf {j : ℕ} (h : i ≤ j) : l.navsUpTo i <+: l.navsUpTo j := by
  obtain ⟨k, rfl⟩ := Nat.exists_eq_add_of_le h
  rw [CommandList.navsUpTo, CommandList.navsUpTo, range_add]
  exact (prefix_append _ _).filter _

theorem navsUpTo_eq_navs (h : l.total ≤ i) (hi : i ≤ max l.total 1) : l.navsUpTo i = l.navs := by
  obtain rfl | ⟨h0, rfl⟩ : i = l.total ∨ l.total = 0 ∧ i = 1 := by omega
  · rfl
  · rw [CommandList.navs, h0]
    rfl

variable {n : ℕ}

theorem mem_navsUpTo : n ∈ l.navsUpTo i ↔ n < i ∧ l.IsNav n := by
  simp [CommandList.navsUpTo]

variable {e : Event}

theorem inTurn_cons (h : InTurn l log)
    (he : ∀ cmd, e = .start cmd → isNavCmd cmd = false → ∀ b a, l.IsNav b → l.IsNav a → b < a →
    a < cmd.index → Event.verify (l.cmdAt b) true ∈ log) : InTurn l (e :: log) := by
  intro cmd older hsuffix
  rcases suffix_cons_iff.1 hsuffix with heq | hsuffix
  · obtain ⟨rfl, rfl⟩ := cons.inj heq
    exact he cmd rfl
  · exact h cmd older hsuffix

/-! ## The invariant -/

/-- The log of a flight up to a position. -/
structure Passed (l : CommandList) (i : ℕ) (log : List Event) : Prop where
  navs : (navStarted log).reverse = l.navsUpTo i
  dos_lt : ∀ d ∈ doStarted log, d < i
  dos : (doStarted log).Pairwise (· > ·)
  turn : InTurn l log

/-- Those in front of `i` have verified. -/
def Verified (l : CommandList) (i : ℕ) (log : List Event) : Prop :=
  ∀ b < i, l.IsNav b → Event.verify (l.cmdAt b) true ∈ log

theorem Verified.cons (h : Verified l i log) (e : Event) : Verified l i (e :: log) :=
  fun b hb hnav => mem_cons_of_mem e (h b hb hnav)

theorem Passed.cons (h : Passed l i log) (he : ∀ cmd, e ≠ .start cmd) : Passed l i (e :: log) := by
  have hnav : navStarted (e :: log) = navStarted log := by
    cases e <;> first | rfl | exact absurd rfl (he _)
  have hdo : doStarted (e :: log) = doStarted log := by
    cases e <;> first | rfl | exact absurd rfl (he _)
  exact ⟨hnav ▸ h.navs, hdo ▸ h.dos_lt, hdo ▸ h.dos, inTurn_cons h.turn fun cmd hcmd =>
    absurd hcmd (he cmd)⟩

theorem Passed.skip (h : Passed l i log) (hi : ¬l.IsNav i) : Passed l (i + 1) log :=
  ⟨(navsUpTo_succ_of_not_isNav hi).symm ▸ h.navs, fun d hd => (h.dos_lt d hd).trans i.lt_succ_self,
    h.dos, h.turn⟩

theorem Verified.skip (h : Verified l i log) (hi : ¬l.IsNav i) : Verified l (i + 1) log := by
  intro b hb hnav
  obtain hlt | rfl := Nat.lt_succ_iff_lt_or_eq.1 hb
  · exact h b hlt hnav
  · exact absurd hnav hi

theorem Passed.startNav (h : Passed l i log) (hi : l.IsNav i) :
    Passed l (i + 1) (.start (l.cmdAt i) :: log) := by
  have hdo : doStarted (.start (l.cmdAt i) :: log) = doStarted log := doStarted_start_nav hi.2
  refine ⟨?_, fun d hd => (h.dos_lt d (hdo ▸ hd)).trans i.lt_succ_self, hdo ▸ h.dos,
    inTurn_cons h.turn fun cmd hcmd hcmd' => ?_⟩
  · rw [navStarted_start_nav hi.2, index_cmdAt, reverse_cons, h.navs, navsUpTo_succ_of_isNav hi]
  · obtain rfl := Event.start.inj hcmd
    cases hi.2.symm.trans hcmd'

theorem Passed.startDo {d : ℕ} (h : Passed l i log) (hd : d < i)
    (hdo : isNavCmd (l.cmdAt d) = false) (hlast : ∀ d' ∈ doStarted log, d' < d)
    (hverified : ∀ b a, l.IsNav b → l.IsNav a → b < a → a < d →
    Event.verify (l.cmdAt b) true ∈ log) : Passed l i (.start (l.cmdAt d) :: log) := by
  have hdos : doStarted (.start (l.cmdAt d) :: log) = d :: doStarted log := by
    rw [doStarted_start_do hdo, index_cmdAt]
  refine ⟨(navStarted_start_do hdo).symm ▸ h.navs, ?_, ?_, inTurn_cons h.turn fun cmd hcmd _ => ?_⟩
  · rw [hdos]
    exact forall_mem_cons.2 ⟨hd, h.dos_lt⟩
  · rw [hdos]
    exact pairwise_cons.2 ⟨hlast, h.dos⟩
  · obtain rfl := Event.start.inj hcmd
    rwa [index_cmdAt]

theorem Passed.inOrder (h : Passed l i log) (hi : l.navsUpTo i <+: l.navs) : InOrder l log :=
  ⟨h.navs ▸ hi, pairwise_reverse.2 h.dos, h.turn⟩

/-- There is no DO_JUMP. -/
def JumpFree (l : CommandList) : Prop := ∀ i < l.total, ¬l.IsJump i

/-- The do command is one of the list. -/
structure DoCurrent (l : CommandList) (s : State) : Prop where
  eq : s.doCmd = l.cmdAt s.doCmd.index
  isDo : isNavCmd s.doCmd = false
  head : (doStarted s.log).head? = some s.doCmd.index

theorem DoCurrent.congr (h : DoCurrent l s) (hcmd : s'.doCmd = s.doCmd)
    (hlog : doStarted s'.log = doStarted s.log) : DoCurrent l s' :=
  ⟨hcmd.symm ▸ h.eq, hcmd.symm ▸ h.isDo, by rw [hlog, hcmd]; exact h.head⟩

/-- A running mission with its current navigation command. -/
structure Flying (l : CommandList) (s : State) : Prop where
  running : s.state = .running
  loaded : s.navCmdLoaded = true
  eq : s.navCmd = l.cmdAt s.navCmd.index
  isNav : l.IsNav s.navCmd.index
  lt : s.navCmd.index < l.total
  passed : Passed l (s.navCmd.index + 1) s.log
  verified : Verified l s.navCmd.index s.log
  current : s.doCmdLoaded = true ∨ s.doCmdAllDone = false → DoCurrent l s

/-- The log has grown, and the mission was not completed. -/
def Quietly (older log : List Event) : Prop := ∃ new, log = new ++ older ∧ complete ∉ new

theorem Quietly.cons {older : List Event} (h : Quietly older log) (he : complete ≠ e) :
    Quietly older (e :: log) := by
  obtain ⟨new, rfl, hquiet⟩ := h
  exact ⟨e :: new, rfl, by simp [he, hquiet]⟩

/-! ## Moving on to the next navigation command -/

/-- The walk from an index on. -/
structure Walking (l : CommandList) (first : ℕ) (log : List Event) (w : Walk) : Prop where
  running : w.state.state = .running
  pos : 1 ≤ w.cmdIndex
  first_le : first ≤ w.cmdIndex
  le : w.cmdIndex ≤ max l.total 1
  quietly : Quietly log w.state.log
  passed : Passed l w.cmdIndex w.state.log
  current : w.state.doCmdLoaded = true → DoCurrent l w.state
  searching : w.state.navCmdLoaded = false → Verified l w.cmdIndex w.state.log ∧
    l.navsUpTo w.cmdIndex = l.navsUpTo first ∧
    l.total ≤ w.cmdIndex + w.maxLoops + if w.state.doCmdLoaded then 0 else 1
  found : w.state.navCmdLoaded = true → ∃ n, w.cmdIndex = n + 1 ∧ first ≤ n ∧ n < l.total ∧
    l.IsNav n ∧ w.state.navCmd = l.cmdAt n ∧ Verified l n w.state.log

theorem getNextCmd_of_jumpFree (hfree : JumpFree l) {increment : Bool} {tracking : JumpTracking}
    (h : i < l.total) : getNextCmd l i increment tracking = (some (l.cmdAt i), tracking) :=
  getNextCmd_of_not_isJump h (hfree i h)

theorem Walking.next (hfree : JumpFree l) {first : ℕ} {w w' : Walk} (h : Walking l first log w)
    (hb : advanceCurrentNavCmdBody l w = .inr w') : Walking l first log w' := by
  obtain ⟨cmd, tracking, hloaded, hg, hindex, hcases⟩ := advanceCurrentNavCmdBody_inr hb
  obtain ⟨hverified, hnavs, hbound⟩ := h.searching hloaded
  have hfirst := h.first_le
  have hlt : w.cmdIndex < l.total := by
    by_contra hge
    cases (getNextCmd_of_le (not_lt.1 hge)).symm.trans hg
  obtain ⟨hcmd, rfl⟩ := Prod.mk.inj ((getNextCmd_of_jumpFree hfree hlt).symm.trans hg)
  obtain rfl := Option.some.inj hcmd
  rw [index_cmdAt] at hindex
  have hfound : Passed l w.cmdIndex (.found (l.cmdAt w.cmdIndex) :: w.state.log) :=
    h.passed.cons fun _ => nofun
  have hverified' : Verified l w.cmdIndex (.found (l.cmdAt w.cmdIndex) :: w.state.log) :=
    hverified.cons _
  have hquiet : Quietly log (.found (l.cmdAt w.cmdIndex) :: w.state.log) := h.quietly.cons (by simp)
  -- the index moves past a navigation command, the first do command, or another do command
  obtain ⟨hnav, hm, hs⟩ | ⟨hdo, hnone, hm, hs⟩ | ⟨hdo, hsome, hm, hs⟩ := hcases
  · have hnav : l.IsNav w.cmdIndex := ⟨h.pos, hnav⟩
    have hdos : doStarted w'.state.log = doStarted w.state.log := by
      rw [hs]
      exact doStarted_start_nav hnav.2
    refine ⟨?_, by omega, by omega, by omega, ?_, ?_, fun hdo => ?_, fun hsearching => ?_, fun _ => ?_⟩
    · exact hs ▸ h.running
    · exact hs ▸ hquiet.cons (by simp)
    · exact hs ▸ hindex ▸ hfound.startNav hnav
    · exact (h.current (by rw [hs] at hdo; exact hdo)).congr (by rw [hs]; rfl) hdos
    · simp [hs, State.startNavCmd, State.emit] at hsearching
    · refine ⟨w.cmdIndex, hindex, hfirst, hlt, hnav, by rw [hs]; rfl, ?_⟩
      exact hs ▸ hverified'.cons _
  · have hnav : ¬l.IsNav w.cmdIndex := fun h => by cases hdo.symm.trans h.2
    refine ⟨?_, by omega, by omega, by omega, ?_, ?_, fun _ => ?_, fun _ => ?_, fun hloaded' => ?_⟩
    · exact hs ▸ h.running
    · exact hs ▸ hquiet.cons (by simp)
    · exact hs ▸ hindex ▸ (hfound.skip hnav).startDo w.cmdIndex.lt_succ_self hdo hfound.dos_lt
        fun b a hb _ hba ha => hverified' b (hba.trans ha) hb
    · rw [hs]
      exact ⟨by simp [State.startDoCmd, State.emit], hdo, congrArg _ (doStarted_start_do hdo)⟩
    · refine ⟨hs ▸ hindex ▸ (hverified'.skip hnav).cons _, ?_, ?_⟩
      · rw [hindex, navsUpTo_succ_of_not_isNav hnav, hnavs]
      simp only [hnone, Bool.false_eq_true, if_false] at hbound
      omega
    · simp [hs, State.startDoCmd, State.emit, Walk.found, hloaded] at hloaded'
  · have hnav : ¬l.IsNav w.cmdIndex := fun h => by cases hdo.symm.trans h.2
    refine ⟨?_, by omega, by omega, by omega, ?_, ?_, fun _ => ?_, fun _ => ?_, fun hloaded' => ?_⟩
    · exact hs ▸ h.running
    · exact hs ▸ hquiet
    · exact hs ▸ hindex ▸ hfound.skip hnav
    · exact (h.current hsome).congr (by rw [hs]; rfl) (by rw [hs]; rfl)
    · refine ⟨hs ▸ hindex ▸ hverified'.skip hnav, ?_, ?_⟩
      · rw [hindex, navsUpTo_succ_of_not_isNav hnav, hnavs]
      rw [hsome, if_pos rfl] at hbound
      omega
    · simp [hs, State.emit, Walk.found, hloaded] at hloaded'

theorem walking_start (hrun : s.state = .running) (hnav : s.navCmdLoaded = false)
    (hfirst : (Walk.start s).cmdIndex = i) (hpos : 1 ≤ i) (hi : i ≤ max l.total 1)
    (htotal : l.total ≤ 257) (hpassed : Passed l i s.log) (hverified : Verified l i s.log) :
    Walking l i s.log (.start s) where
  running := hrun
  pos := hfirst.symm ▸ hpos
  first_le := hfirst.ge
  le := hfirst.symm ▸ hi
  quietly := ⟨[_], rfl, by simp⟩
  passed := hfirst.symm ▸ hpassed.cons fun _ => nofun
  current := nofun
  searching := by
    intro _
    refine ⟨hfirst.symm ▸ hverified.cons _, by rw [hfirst], ?_⟩
    show l.total ≤ (Walk.start s).cmdIndex + 255 + 1
    omega
  found := by
    intro h
    cases hnav.symm.trans h

/-- The next navigation command is loaded, or none is left. -/
def Advanced (l : CommandList) (first : ℕ) (log : List Event) (r : Bool × State) : Prop :=
  Quietly log r.2.log ∧
    (r.1 = true ∧ Flying l r.2 ∧ first ≤ r.2.navCmd.index ∨
      r.1 = false ∧ InOrder l r.2.log ∧ l.navs = l.navsUpTo first)

theorem Walking.advanced_of_loaded {w : Walk} (h : Walking l i log w)
    (hloaded : w.state.navCmdLoaded = true) : Advanced l i log (true, w.state.noteDoCmd) := by
  obtain ⟨n, hindex, hn, hlt, hisNav, hcmd, hverified⟩ := h.found hloaded
  have hindex' : w.state.navCmd.index = n := by rw [hcmd, index_cmdAt]
  refine ⟨by simpa using h.quietly, .inl ⟨rfl, ?_, by simpa [hindex'] using hn⟩⟩
  constructor <;>
    simp only [noteDoCmd_state, noteDoCmd_navCmdLoaded, noteDoCmd_navCmd, noteDoCmd_log, hindex']
  · exact h.running
  · exact hloaded
  · exact hcmd
  · exact hisNav
  · exact hlt
  · exact hindex ▸ h.passed
  · exact hverified
  · intro hdo
    have hdo : w.state.doCmdLoaded = true := by
      simp only [noteDoCmd_doCmdLoaded, noteDoCmd_doCmdAllDone, Bool.or_eq_false_iff,
        Bool.not_eq_false'] at hdo
      exact hdo.elim id And.right
    exact (h.current hdo).congr (noteDoCmd_doCmd _) (by rw [noteDoCmd_log])

theorem advanceCurrentNavCmd_spec (hfree : JumpFree l) (hrun : s.state = .running)
    (hnav : s.navCmdLoaded = false) (hw : Walking l i s.log (.start s)) :
    Advanced l i s.log (advanceCurrentNavCmd l s) := by
  rw [advanceCurrentNavCmd, if_neg (by simp [hrun, hnav])]
  refine (returns_advanceCurrentNavCmd l s).invariant (I := Walking l i s.log)
    (Q := Advanced l i s.log) (fun _ _ => Walking.next hfree) ?_ hw
  intro w r hw hb
  cases hloaded : w.state.navCmdLoaded with
  | true =>
    obtain rfl := Sum.inl.inj ((advanceCurrentNavCmdBody_of_loaded hloaded).symm.trans hb)
    exact hw.advanced_of_loaded hloaded
  | false =>
    obtain ⟨-, hnavs, hbound⟩ := hw.searching hloaded
    by_cases hlt : w.cmdIndex < l.total
    · -- the limit on the do commands is not reached
      exfalso
      rw [advanceCurrentNavCmdBody_of_some hloaded (getNextCmd_of_jumpFree hfree hlt)] at hb
      split_ifs at hb with hcmd hdo hzero
      rw [if_pos (eq_true_of_ne_false hdo)] at hbound
      omega
    · have hend := navsUpTo_eq_navs (not_lt.1 hlt) hw.le
      obtain rfl := Sum.inl.inj ((advanceCurrentNavCmdBody_of_none hloaded
        (getNextCmd_of_le (not_lt.1 hlt))).symm.trans hb)
      exact ⟨hw.quietly, .inr ⟨rfl, hw.passed.inOrder (hend ▸ prefix_rfl), hend ▸ hnavs⟩⟩

/-! ## One update -/

theorem Quietly.trans {a b c : List Event} (h : Quietly a b) (h' : Quietly b c) : Quietly a c := by
  obtain ⟨new, rfl, hnew⟩ := h
  obtain ⟨new', rfl, hnew'⟩ := h'
  exact ⟨new' ++ new, by rw [append_assoc], by simp [hnew', hnew]⟩

theorem Quietly.refl (log : List Event) : Quietly log log := ⟨[], rfl, nofun⟩

theorem Flying.congr (h : Flying l s) (hstate : s'.state = s.state)
    (hloaded : s'.navCmdLoaded = s.navCmdLoaded) (hcmd : s'.navCmd = s.navCmd)
    (hlog : s'.log = s.log) (hcurrent : s'.doCmdLoaded = true ∨ s'.doCmdAllDone = false →
    s'.doCmd = s.doCmd ∧ (s.doCmdLoaded = true ∨ s.doCmdAllDone = false)) : Flying l s' := by
  refine ⟨hstate ▸ h.running, hloaded ▸ h.loaded, hcmd ▸ h.eq, hcmd ▸ h.isNav, hcmd ▸ h.lt, ?_, ?_,
    fun hdo => ?_⟩
  · rw [hcmd, hlog]
    exact h.passed
  · rw [hcmd, hlog]
    exact h.verified
  · obtain ⟨hdoCmd, hdo⟩ := hcurrent hdo
    exact (h.current hdo).congr hdoCmd (by rw [hlog])

theorem Flying.emit (h : Flying l s) (he : ∀ cmd, e ≠ .start cmd) : Flying l (s.emit e) where
  running := h.running
  loaded := h.loaded
  eq := h.eq
  isNav := h.isNav
  lt := h.lt
  passed := h.passed.cons he
  verified := h.verified.cons e
  current hdo := (h.current hdo).congr rfl (by
    cases e <;> first | rfl | exact absurd rfl (he _))

theorem Flying.startDoCmd (h : Flying l s) (hall : s.doCmdAllDone = false) {d : ℕ}
    (hd : d = s.doCmd.index + 1) (hdo : isNavCmd (l.cmdAt d) = false) :
    Flying l (s.startDoCmd (l.cmdAt d)) := by
  obtain ⟨heq, hisDo, hhead⟩ := h.current (.inr hall)
  obtain ⟨rest, hrest⟩ : ∃ rest, doStarted s.log = s.doCmd.index :: rest :=
    ⟨_, eq_cons_of_mem_head? hhead⟩
  have hlast : ∀ d' ∈ doStarted s.log, d' < d := by
    have hsorted := h.passed.dos
    rw [hrest] at hsorted ⊢
    refine forall_mem_cons.2 ⟨by omega, fun d' hd' => ?_⟩
    have := (pairwise_cons.1 hsorted).1 d' hd'
    omega
  have hlt : d < s.navCmd.index + 1 := by
    have hle := h.passed.dos_lt s.doCmd.index (hrest ▸ mem_cons_self)
    have hne : s.doCmd.index ≠ s.navCmd.index := by
      intro hindex
      rw [heq, hindex] at hisDo
      cases hisDo.symm.trans h.isNav.2
    omega
  refine ⟨h.running, h.loaded, h.eq, h.isNav, h.lt, ?_, ?_, fun _ => ?_⟩
  · exact h.passed.startDo hlt hdo hlast fun b a hb _ hba ha =>
      h.verified b (by omega) hb
  · exact h.verified.cons _
  · exact ⟨by simp [State.startDoCmd, State.emit], hdo, congrArg _ (doStarted_start_do hdo)⟩

theorem Flying.updateDoCmd (hfree : JumpFree l) (h : Flying l s) (verify : Command → Bool) :
    Flying l (updateDoCmd l verify s) ∧ Quietly s.log (updateDoCmd l verify s).log ∧
      (updateDoCmd l verify s).navCmd = s.navCmd := by
  cases hloaded : s.doCmdLoaded with
  | true =>
    have hverify : ∀ cmd, Event.verify s.doCmd (verify s.doCmd) ≠ .start cmd := nofun
    rw [Mission.updateDoCmd, if_neg (by simp [hloaded])]
    refine ⟨Flying.emit ?_ hverify, (Quietly.refl _).cons ?_, rfl⟩
    · exact h.congr rfl rfl rfl rfl fun _ => ⟨rfl, .inl hloaded⟩
    · simp
  | false =>
    rw [Mission.updateDoCmd, if_pos (by simp [hloaded])]
    obtain heq | ⟨tracking, -, heq⟩ | ⟨cmd, tracking, -, hall, hdo, hg, heq⟩ :=
      advanceCurrentDoCmd_cases l s <;> rw [heq]
    · exact ⟨h, .refl _, rfl⟩
    · exact ⟨h.congr rfl rfl rfl rfl (by simp [hloaded]), .refl _, rfl⟩
    · have hcurrent := h.current (.inr hall)
      have hnext : s.nextDoIndex = s.doCmd.index + 1 := by
        refine if_neg fun hnone => ?_
        have := h.passed.dos_lt _ (mem_of_mem_head? hcurrent.head)
        have := h.lt
        have := l.small
        rw [indexNone] at hnone
        omega
      obtain ⟨hlt, hcmd⟩ := getNextCmd_some hg
      have hindex : s.nextDoIndex < l.total := by
        by_contra hge
        cases (getNextCmd_of_le (not_lt.1 hge)).symm.trans hg
      obtain ⟨hsome, -⟩ := Prod.mk.inj ((getNextCmd_of_jumpFree hfree hindex).symm.trans hg)
      obtain rfl := Option.some.inj hsome
      refine ⟨Flying.startDoCmd ?_ ?_ ?_ hdo, (Quietly.refl _).cons (by simp), rfl⟩
      · exact h.congr rfl rfl rfl rfl fun _ => ⟨rfl, .inr hall⟩
      · exact hall
      · exact hnext

/-- The same with a completed mission. -/
def MovedOn (l : CommandList) (first : ℕ) (log : List Event) (s : State) : Prop :=
  Flying l s ∧ Quietly log s.log ∧ first ≤ s.navCmd.index ∨
    s.state = .complete ∧ InOrder l s.log ∧ l.navs = l.navsUpTo first ∧
      ∃ new, s.log = .complete :: (new ++ log)

theorem inOrder_complete (h : InOrder l log) : InOrder l (.complete :: log) :=
  ⟨h.navs, h.dos, inTurn_cons h.turn fun _ => nofun⟩

theorem Advanced.movedOn_complete {r : Bool × State} (h : Advanced l i log r) (hr : r.1 = false) :
    MovedOn l i log r.2.complete := by
  obtain ⟨⟨new, hnew, -⟩, ⟨htrue, -⟩ | ⟨-, horder, hnavs⟩⟩ := h
  · cases hr.symm.trans htrue
  · exact .inr ⟨rfl, inOrder_complete horder, hnavs, new, congrArg _ hnew⟩

theorem movedOn_updateNext (hfree : JumpFree l) (hrun : s.state = .running)
    (hnav : s.navCmdLoaded = false) (hw : Walking l i s.log (.start s)) (verify : Command → Bool) :
    MovedOn l i s.log (updateNext l verify s) := by
  have hspec := advanceCurrentNavCmd_spec hfree hrun hnav hw
  rw [updateNext]
  cases hr : (advanceCurrentNavCmd l s).1 with
  | false =>
    exact hspec.movedOn_complete hr
  | true =>
    obtain ⟨hquiet, ⟨-, hflying, hi⟩ | ⟨hfalse, -⟩⟩ := hspec
    · obtain ⟨hflying', hquiet', hcmd⟩ := hflying.updateDoCmd hfree verify
      exact .inl ⟨hflying', hquiet.trans hquiet', hcmd.symm ▸ hi⟩
    · cases hr.symm.trans hfalse

/-- Running or complete, in order. -/
def OnCourse (l : CommandList) (s : State) : Prop :=
  Flying l s ∨ s.state = .complete ∧ InOrder l s.log

theorem MovedOn.onCourse (h : MovedOn l i log s) : OnCourse l s :=
  h.imp And.left fun h => ⟨h.1, h.2.1⟩

theorem getLast?_navs (hn : l.IsNav n) (h : l.navs = l.navsUpTo (n + 1)) :
    l.navs.getLast? = some n := by
  rw [h, navsUpTo_succ_of_isNav hn, getLast?_append, getLast?_singleton, Option.some_or]

theorem not_getLast?_navs {m : ℕ} (hm : l.IsNav m) (hlt : m < l.total) (hnm : n < m) :
    l.navs.getLast? ≠ some n := by
  intro hlast
  have hsorted : l.navs.Pairwise (· < ·) := pairwise_lt_range.filter _
  obtain ⟨front, hfront⟩ := getLast?_eq_some_iff.1 hlast
  have hmem : m ∈ front ++ [n] := hfront ▸ mem_navsUpTo.2 ⟨hlt, hm⟩
  rw [hfront] at hsorted
  have hle := (pairwise_append.1 hsorted).2.2
  rcases mem_append.1 hmem with hmem | hmem
  · have := hle m hmem n (mem_singleton_self n)
    omega
  · obtain rfl := mem_singleton.1 hmem
    omega

theorem MovedOn.completesAtLast {verify : Command → Bool} (hflies : Flying l s)
    (hverify : verify s.navCmd = true)
    (h : MovedOn l (s.navCmd.index + 1) (.verify s.navCmd true :: s.log) s') :
    CompletesAtLast l verify s s' := by
  obtain ⟨hflying, ⟨new, hnew, hquiet⟩, hle⟩ | ⟨-, -, hnavs, new, hnew⟩ := h
  · rw [CompletesAtLast, newEvents_eq (hnew.trans (append_assoc new [_] s.log).symm)]
    refine iff_of_false (by simpa using hquiet) ?_
    rintro ⟨-, hlast, -⟩
    obtain ⟨n, hn, heq⟩ := Option.map_eq_some_iff.1 hlast
    obtain rfl : n = s.navCmd.index := by simpa using congrArg Command.index heq
    exact not_getLast?_navs hflying.isNav hflying.lt hle hn
  · have hnew' : s'.log = (.complete :: new ++ [.verify s.navCmd true]) ++ s.log := by
      simp [hnew]
    rw [CompletesAtLast, newEvents_eq hnew', getLast?_navs hflies.isNav hnavs, Option.map_some,
      ← hflies.eq]
    exact iff_of_true (by simp) ⟨hflies.running, rfl, hverify⟩

theorem Flying.update (hfree : JumpFree l) (htotal : l.total ≤ 257) (h : Flying l s)
    (verify : Command → Bool) :
    OnCourse l (update l s verify) ∧ CompletesAtLast l verify s (update l s verify) := by
  have hindex : s.navCmd.index ≠ indexNone := by
    have := h.lt
    rw [indexNone]
    omega
  have hstart : ∀ cmd, Event.verify s.navCmd (verify s.navCmd) ≠ .start cmd := nofun
  have hlt := h.lt
  rw [Mission.update, if_neg (by simp [h.running]; omega), if_neg (by simp [h.loaded, hindex])]
  cases hverify : verify s.navCmd with
  | false =>
    rw [if_neg (by simp), ← hverify]
    obtain ⟨hflying, ⟨new, hnew, hquiet⟩, -⟩ := (h.emit hstart).updateDoCmd hfree verify
    refine ⟨.inl hflying, ?_⟩
    rw [CompletesAtLast, newEvents_eq (hnew.trans (append_assoc new [_] s.log).symm), hverify]
    exact iff_of_false (by simpa using hquiet) (by simp)
  | true =>
    have hmoved : MovedOn l (s.navCmd.index + 1) (.verify s.navCmd true :: s.log)
        (updateNext l verify { s.emit (.verify s.navCmd true) with navCmdLoaded := false }) := by
      refine movedOn_updateNext hfree ?_ rfl (walking_start ?_ rfl ?_ ?_ ?_ htotal ?_ ?_) verify
      · exact h.running
      · exact h.running
      · exact if_neg hindex
      · omega
      · omega
      · exact h.passed.cons fun _ => nofun
      · intro b hb hnav
        obtain hb | rfl := Nat.lt_succ_iff_lt_or_eq.1 hb
        · exact mem_cons_of_mem _ (h.verified b hb hnav)
        · rw [← h.eq]
          exact mem_cons_self
    exact ⟨hmoved.onCourse, hmoved.completesAtLast h hverify⟩

theorem start_onCourse (hfree : JumpFree l) (htotal : l.total ≤ 257) (hs : s.log = []) :
    OnCourse l (start l s) ∧ (complete ∈ (start l s).log ↔ l.navs = []) := by
  have hpassed : Passed l 1 [] := ⟨rfl, nofun, .nil, fun _ _ h => by simp at h⟩
  have hverified : Verified l 1 [] := fun b hb hnav => by
    have := hnav.1
    omega
  have hmoved : MovedOn l 1 [] (start l s) := by
    have hspec : Advanced l 1 [] (advanceCurrentNavCmd l (reset { s with state := .running })) := by
      rw [← hs]
      refine advanceCurrentNavCmd_spec hfree rfl rfl (walking_start rfl rfl rfl le_rfl ?_ htotal ?_ ?_)
      · exact le_max_right _ _
      · exact hs.symm ▸ hpassed
      · exact hs.symm ▸ hverified
    rw [start]
    cases hr : (advanceCurrentNavCmd l (reset { s with state := .running })).1 with
    | false =>
      exact hspec.movedOn_complete hr
    | true =>
      obtain ⟨hquiet, ⟨-, hflying, hi⟩ | ⟨hfalse, -⟩⟩ := hspec
      · exact .inl ⟨hflying, hquiet, hi⟩
      · cases hr.symm.trans hfalse
  refine ⟨hmoved.onCourse, ?_⟩
  obtain ⟨hflying, ⟨new, hnew, hquiet⟩, -⟩ | ⟨-, -, hnavs, new, hnew⟩ := hmoved
  · rw [hnew, append_nil]
    refine iff_of_false hquiet ?_
    exact ne_nil_of_mem (mem_navsUpTo.2 ⟨hflying.lt, hflying.isNav⟩)
  · rw [hnew]
    exact iff_of_true mem_cons_self hnavs

theorem OnCourse.update (hfree : JumpFree l) (htotal : l.total ≤ 257) (h : OnCourse l s)
    (verify : Command → Bool) :
    OnCourse l (update l s verify) ∧ CompletesAtLast l verify s (update l s verify) := by
  obtain h | ⟨hstate, horder⟩ := h
  · exact h.update hfree htotal verify
  · have hupdate : Mission.update l s verify = s := if_pos (.inl (by simp [hstate]))
    rw [hupdate]
    refine ⟨.inr ⟨hstate, horder⟩, ?_⟩
    simp [CompletesAtLast, newEvents, hstate]

theorem OnCourse.inOrder (h : OnCourse l s) : InOrder l s.log := by
  obtain h | h := h
  · exact h.passed.inOrder (navsUpTo_isPrefixOf h.lt)
  · exact h.2

/-- Without jumps the commands are started in list order, and the mission completes when the last
navigation command verifies. -/
theorem jumpFree_run_inOrder (hfree : JumpFree l) (htotal : l.total ≤ 257) (s : State)
    (answers : List (Command → Bool)) (verify : Command → Bool) :
    let begun := start l { s with log := [] }
    let reached := Run.run (update l) begun answers
    (Event.complete ∈ begun.log ↔ l.navs = []) ∧ InOrder l reached.log ∧
      CompletesAtLast l verify reached (update l reached verify) := by
  have hstart := start_onCourse (s := { s with log := [] }) hfree htotal rfl
  have hrun := Run.run_invariant (I := OnCourse l)
    (fun s verify h => (h.update hfree htotal verify).1) hstart.1 answers
  exact ⟨hstart.2, hrun.inOrder, (hrun.update hfree htotal verify).2⟩

/-- Two navigation and two do commands. -/
def survey : CommandList :=
  .ofList [⟨22, 0, .zero⟩, ⟨203, 0, .zero⟩, ⟨16, 0, .zero⟩, ⟨183, 0, .zero⟩] (by decide)

/-- The survey is completed by the second of two updates in which the callback answers true. -/
theorem survey_inOrder :
    let reached := Run.run (update survey) (start survey { (default : State) with log := [] })
      [fun _ => true]
    JumpFree survey ∧ survey.total ≤ 257 ∧ InOrder survey reached.log ∧
      Event.complete ∈ newEvents reached (update survey reached fun _ => true) := by
  have hfree : JumpFree survey := by
    intro i hi
    have hi : i < 5 := hi
    interval_cases i <;> decide +kernel
  obtain ⟨-, horder, hcomplete⟩ := jumpFree_run_inOrder hfree (by decide) default
    [fun _ => true] fun _ => true
  exact ⟨hfree, by decide, horder, hcomplete.2 (by decide +kernel)⟩

end Tm4cPilot.Mission
