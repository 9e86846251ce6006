import Tm4cPilot.HrTimer.Check
import Tm4cPilot.ToneAlarm.Player

/-!
# Tunes in the timer interrupt

`next_note` is called by `hrtimer_check`, and starts its own timer again.  A tune that is repeated
without ever waiting keeps `hrtimer_check` from returning.
-/

namespace Tm4cPilot.ToneAlarm

open HrTimer Queue List Option Run Nat

def tuneMax : ℕ := 1024 * 8

/-- `hrt_call_after`, for a timer not activated. -/
def hrtCallAfter (delay : UInt32) : List (Op Unit) :=
  [.stop (), .init () delay.toUInt64 false, .start ()]

/-- The delay of the call that `next_note` asks for. -/
def Outcome.delay : Outcome → Option UInt32
  | .wait delay => some delay
  | .restart => some 0
  | .done => none

/-- What a call of `next_note` does with the timer. -/
def Outcome.ops (o : Outcome) : List (Op Unit) := o.delay.elim [] hrtCallAfter

def nextTrampoline (dotsFirst : Bool) : Callback Unit Player := fun _ p =>
  ((p.nextNote dotsFirst).2, (p.nextNote dotsFirst).1.ops)

/-- The driver: the timer, the player and the copy of the tune. -/
structure Alarm where
  queue : Queue Unit
  player : Player
  userTune : Option (List UInt8)

inductive Event where
  /-- `dev_tone_alarm_play`, with the value it reads from the clock and whether there is memory for
  the copy. -/
  | play (buffer : List UInt8) (now : UInt64) (memory : Bool)
  /-- `hrtimer_check`, with the values it reads from the clock and a bound for its rounds. -/
  | check (clock : ℕ → UInt64) (rounds : ℕ)

/-- What `dev_tone_alarm_play` returns. -/
inductive PlayResult where
  | tooBig
  | noMemory
  | length (len : ℕ)
  deriving DecidableEq, Repr

namespace Alarm

/-- The state of the driver after `dev_tone_alarm_init`. -/
def idle : Alarm where
  queue := Queue.idle fun _ => Timer.unused
  player := { Player.started [] with tune := none, next := none }
  userTune := none

def hrtCancel (q : Queue Unit) : Queue Unit :=
  if (q.timer ()).activated = true then (q.hrtimerStop ()).1.hrtimerInit () 0 false else q

def stopTune (a : Alarm) : Alarm :=
  { a with
    queue := hrtCancel a.queue
    player := { a.player with tune := none, next := none, sounding := none } }

def startTune (a : Alarm) (tune : List UInt8) (now : UInt64) : Alarm :=
  { a with
    queue := (run (Check.perform fun _ => now) (hrtCancel a.queue, 0) (hrtCallAfter 0)).1
    player := Player.started tune }

/-- `dev_tone_alarm_play`. -/
def play (a : Alarm) (buffer : List UInt8) (now : UInt64) (memory : Bool) : PlayResult × Alarm :=
  if tuneMax < buffer.length then (.tooBig, a)
  else
    let a := if a.userTune.isSome then { a.stopTune with userTune := none } else a
    if (buffer.head?).getD 0 = 0 then (.length 0, a)
    else if memory = false then (.noMemory, a)
    else (.length buffer.length, { a with userTune := some buffer }.startTune buffer now)

def step (dotsFirst : Bool) (a : Alarm) : Event → Option Alarm
  | .play buffer now memory => some (a.play buffer now memory).2
  | .check clock rounds =>
    (hrtimerCheck clock (nextTrampoline dotsFirst) rounds a.queue a.player).map fun r =>
      { a with queue := r.queue, player := r.env }

end Alarm

/-- The player is back at the start without having waited. -/
inductive RepeatsSilently (dotsFirst : Bool) : Player → Prop
  | restart {p p' : Player} (h : p.nextNote dotsFirst = (.restart, p')) :
      RepeatsSilently dotsFirst p
  | wait {p p' : Player} (h : p.nextNote dotsFirst = (.wait 0, p'))
      (rest : RepeatsSilently dotsFirst p') : RepeatsSilently dotsFirst p

theorem erase_eq_nil {l : List Unit} (h : l.length ≤ 1) : l.erase () = [] := by
  match l, h with
  | [], _ => rfl
  | [()], _ => rfl

theorem length_hrtimerStop_le {q : Queue Unit} (h : q.list.length ≤ 1) :
    (q.hrtimerStop ()).1.list.length ≤ 1 := by
  rw [hrtimerStop]
  split
  · exact h
  · exact erase_sublist.length_le.trans h

theorem run_hrtCallAfter (clock : ℕ → UInt64) {q : Queue Unit} (hlist : q.list.length ≤ 1)
    (reads : ℕ) (delay : UInt32) :
    let t := run (Check.perform clock) (q, reads) (hrtCallAfter delay)
    t.1.list = [()] ∧ (t.1.timer ()).timeoutTick = clock reads + delay.toUInt64 ∧
      (t.1.timer ()).periodic = false ∧ t.2 = reads + 1 := by
  have hstop := length_hrtimerStop_le hlist
  set init := (q.hrtimerStop ()).1.hrtimerInit () delay.toUInt64 false with hinit
  have hrun : run (Check.perform clock) (q, reads) (hrtCallAfter delay) =
      (init.hrtimerStart () (clock reads), reads + 1) := rfl
  have htimer : (init.timer ()).initTick = delay.toUInt64 ∧ (init.timer ()).periodic = false := by
    exact ⟨rfl, rfl⟩
  dsimp only
  rw [hrun, timer_hrtimerStart_self, htimer.1]
  refine ⟨?_, rfl, htimer.2, rfl⟩
  rw [hrtimerStart, link, list_modify, list_modify, list_unlink,
    hinit, hrtimerInit, list_modify, erase_eq_nil hstop]
  rfl

variable {dotsFirst : Bool} {clock : ℕ → UInt64} {s : Check Unit Player}

/-- If the timer is due `next_note` is called, and links it again if it waits. -/
theorem fire_spec (dotsFirst : Bool) (clock : ℕ → UInt64) {s : Check Unit Player}
    (hlist : s.queue.list = [()]) :
    let s' := s.fire clock (nextTrampoline dotsFirst) ()
    s'.env = (s.env.nextNote dotsFirst).2 ∧ s.reads < s'.reads ∧
      s'.currentTick = clock (s'.reads - 1) ∧
      match (s.env.nextNote dotsFirst).1.delay with
      | none => s'.queue.list = []
      | some delay => s'.queue.list = [()] ∧
          (s'.queue.timer ()).timeoutTick = clock s.reads + delay.toUInt64 := by
  have hentry : (s.queue.unlink ()).list = [] := by
    rw [list_unlink, hlist]
    rfl
  have hcallout : s.callout clock (nextTrampoline dotsFirst) () =
    run (Check.perform clock) (s.queue.unlink (), s.reads)
      (s.env.nextNote dotsFirst).1.ops := rfl
  rw [Outcome.ops] at hcallout
  intro s'
  cases hdelay : (s.env.nextNote dotsFirst).1.delay with
  | none =>
    rw [hdelay, elim_none, run_nil] at hcallout
    have hoff : ((s.queue.unlink ()).timer ()).activated = false := by
      rw [unlink, timer_modify_self]
    have hfire : s' = _ := Check.fire_eq fun hagain => by
      rw [hcallout, hoff] at hagain
      exact Bool.false_ne_true hagain.2
    rw [hfire, hcallout]
    exact ⟨rfl, lt_succ_self _, rfl, hentry⟩
  | some delay =>
    rw [hdelay, elim_some] at hcallout
    have hshort : (s.queue.unlink ()).list.length ≤ 1 := by
      rw [hentry]
      exact zero_le 1
    obtain ⟨hlinked, htimeout, honce, hreads⟩ := run_hrtCallAfter clock hshort s.reads delay
    have hfire : s' = _ := Check.fire_eq fun hagain => by
      rw [hcallout, honce] at hagain
      exact Bool.false_ne_true hagain.1
    rw [hfire, hcallout]
    refine ⟨rfl, ?_, rfl, hlinked, htimeout⟩
    dsimp only
    omega

/-! ## The loop ends -/

/-- The tune is not repeated without waiting. -/
def Harmless (dotsFirst : Bool) (p : Player) : Prop :=
  ∀ tune ∈ p.tune, ¬ RepeatsSilently dotsFirst (Player.started tune)

variable {p : Player}

theorem Harmless.nextNote (h : Harmless dotsFirst p) :
    Harmless dotsFirst (p.nextNote dotsFirst).2 := fun tune htune =>
  h tune (Player.tune_nextNote htune)

open Classical in
/-- A bound for the calls made at once. -/
noncomputable def rank (dotsFirst : Bool) (p : Player) : ℕ :=
  if RepeatsSilently dotsFirst p then (p.tune.getD []).length + 1 + p.remaining else p.remaining

theorem rank_of_repeatsSilently (h : RepeatsSilently dotsFirst p) :
    rank dotsFirst p = (p.tune.getD []).length + 1 + p.remaining := if_pos h

theorem rank_of_not_repeatsSilently (h : ¬ RepeatsSilently dotsFirst p) :
    rank dotsFirst p = p.remaining := if_neg h

theorem remaining_le_rank (p : Player) : p.remaining ≤ rank dotsFirst p := by
  rw [rank]
  split
  · omega
  · exact le_rfl

theorem rank_lt (h : Harmless dotsFirst p) (hdelay : (p.nextNote dotsFirst).1.delay = some 0) :
    rank dotsFirst (p.nextNote dotsFirst).2 < rank dotsFirst p := by
  rcases hnote : p.nextNote dotsFirst with ⟨outcome, p'⟩
  rw [hnote] at hdelay
  change rank dotsFirst p' < rank dotsFirst p
  cases outcome with
  | wait delay =>
    obtain rfl : delay = 0 := some.inj hdelay
    obtain ⟨htune, hless | ⟨hpos, -⟩⟩ := Player.nextNote_wait hnote
    swap
    · exact absurd hpos (by decide)
    by_cases hsilent : RepeatsSilently dotsFirst p'
    · rw [rank_of_repeatsSilently hsilent, rank_of_repeatsSilently (.wait hnote hsilent), htune]
      omega
    · rw [rank_of_not_repeatsSilently hsilent]
      exact hless.trans_le (remaining_le_rank p)
  | restart =>
    obtain ⟨tune, htune, rfl⟩ := Player.nextNote_restart hnote
    have hremaining : (Player.started tune).remaining = tune.length := rfl
    have htune' : p.tune = some tune := htune
    rw [rank_of_repeatsSilently (.restart hnote), rank_of_not_repeatsSilently (h tune htune),
      hremaining, htune', getD_some]
    omega
  | done => contradiction

/-- The clock stops in time. -/
def Calm (clock : ℕ → UInt64) : Prop :=
  Check.Stops clock ∧ ∀ n, (clock n).toNat + 2 ^ 32 ≤ 2 ^ 64

/-- What each round keeps. -/
structure Playing (dotsFirst : Bool) (clock : ℕ → UInt64) (s : Check Unit Player) : Prop where
  list : s.queue.list.length ≤ 1
  player : Harmless dotsFirst s.env
  reads : 0 < s.reads
  currentTick : s.currentTick = clock (s.reads - 1)

variable {s' : Check Unit Player}

theorem list_eq_of_round (h : s.queue.list.length ≤ 1)
    (hround : Check.round clock (nextTrampoline dotsFirst) s = .inr s') :
    s.queue.list = [()] ∧ (s.queue.timer ()).timeoutTick ≤ s.currentTick ∧
      s' = s.fire clock (nextTrampoline dotsFirst) () := by
  obtain ⟨k, rest, hlist, hdue, hs'⟩ := Check.round_eq_inr hround
  rw [hlist, length_cons] at h
  obtain rfl : rest = [] := eq_nil_of_length_eq_zero (by omega)
  exact ⟨hlist, hdue, hs'⟩

theorem Playing.round (h : Playing dotsFirst clock s)
    (hround : Check.round clock (nextTrampoline dotsFirst) s = .inr s') :
    Playing dotsFirst clock s' := by
  obtain ⟨hlist, -, rfl⟩ := list_eq_of_round h.list hround
  obtain ⟨henv, hreads, htick, hnext⟩ := fire_spec dotsFirst clock hlist
  refine ⟨?_, henv ▸ h.player.nextNote, by omega, htick⟩
  split at hnext
  · rw [hnext]
    exact zero_le 1
  · rw [hnext.1]
    rfl

/-- The timer is due, and a bound for the calls. -/
noncomputable def urgency (dotsFirst : Bool) (tick : UInt64) (s : Check Unit Player) : ℕ :=
  if s.queue.list = [] then 0
  else if tick < (s.queue.timer ()).timeoutTick then 1
  else 2 + rank dotsFirst s.env

theorem Playing.urgency_lt (h : Playing dotsFirst clock s)
    (hround : Check.round clock (nextTrampoline dotsFirst) s = .inr s')
    (hstill : clock s.reads = s.currentTick) (hbound : (clock s.reads).toNat + 2 ^ 32 ≤ 2 ^ 64) :
    urgency dotsFirst s.currentTick s' < urgency dotsFirst s.currentTick s := by
  obtain ⟨hlist, hdue, rfl⟩ := list_eq_of_round h.list hround
  obtain ⟨henv, -, -, hnext⟩ := fire_spec dotsFirst clock hlist
  have hbefore : urgency dotsFirst s.currentTick s = 2 + rank dotsFirst s.env := by
    rw [urgency, if_neg (by rw [hlist]; exact cons_ne_nil _ _),
      if_neg (UInt64.not_lt.mpr hdue)]
  split at hnext
  · rw [urgency, if_pos hnext]
    omega
  · next delay hdelay =>
    obtain ⟨hlist', htimeout⟩ := hnext
    rw [urgency, if_neg (by rw [hlist']; exact cons_ne_nil _ _), htimeout, hstill]
    by_cases hzero : delay = 0
    · subst hzero
      have hless := rank_lt h.player hdelay
      have hsame : s.currentTick + UInt32.toUInt64 0 = s.currentTick := by simp
      rw [hsame, if_neg (UInt64.lt_irrefl _), henv]
      omega
    · have hlater : s.currentTick < s.currentTick + delay.toUInt64 := by
        rw [← hstill, UInt64.lt_iff_toNat_lt, UInt64.toNat_add, UInt32.toNat_toUInt64]
        have hsmall := delay.toNat_lt
        have hpos : 0 < delay.toNat := by
          rw [pos_iff_ne_zero]
          exact fun hnone => hzero (UInt32.toNat_inj.mp hnone)
        omega
      rw [if_pos hlater]
      omega

theorem Playing.exists_returns (hcalm : Calm clock) (h : Playing dotsFirst clock s) :
    ∃ r, Loop.Returns (Check.round clock (nextTrampoline dotsFirst)) s r := by
  refine Check.exists_returns_of_stops (urgency dotsFirst) hcalm.1
    (fun s hs => ⟨hs.reads, hs.currentTick⟩) (fun s s' hs hround => ?_) h
  refine ⟨hs.round hround, ?_, fun hstill => ?_⟩
  · obtain ⟨hlist, -, rfl⟩ := list_eq_of_round hs.list hround
    exact (fire_spec dotsFirst clock hlist).2.1
  · exact hs.urgency_lt hround (hstill _ le_rfl) (hcalm.2 _)

namespace Alarm

/-- The alarm after a run. -/
def after (dotsFirst : Bool) (events : List Event) : Option Alarm :=
  run (lift (step dotsFirst)) (some idle) events

/-- Between two calls, if no tune is repeated without waiting. -/
structure Sound (dotsFirst : Bool) (a : Alarm) : Prop where
  list : a.queue.list.length ≤ 1
  player : Harmless dotsFirst a.player

theorem sound_idle (dotsFirst : Bool) : Sound dotsFirst idle := ⟨zero_le 1, nofun⟩

theorem length_hrtCancel_le {q : Queue Unit} (h : q.list.length ≤ 1) :
    (hrtCancel q).list.length ≤ 1 := by
  rw [hrtCancel]
  split
  · exact length_hrtimerStop_le h
  · exact h

variable {a : Alarm}

section

variable (h : Sound dotsFirst a)
include h

theorem Sound.stopTune : Sound dotsFirst a.stopTune :=
  ⟨length_hrtCancel_le h.list, nofun⟩

theorem Sound.startTune {tune : List UInt8}
    (htune : ¬ RepeatsSilently dotsFirst (Player.started tune)) (now : UInt64) :
    Sound dotsFirst (a.startTune tune now) := by
  refine ⟨?_, ?_⟩
  · rw [Alarm.startTune, (run_hrtCallAfter _ (length_hrtCancel_le h.list) 0 0).1]
    rfl
  · rintro _ ⟨⟩
    exact htune

theorem Sound.play {buffer : List UInt8}
    (hbuffer : ¬ RepeatsSilently dotsFirst (Player.started buffer)) (now : UInt64) (memory : Bool) :
    Sound dotsFirst (a.play buffer now memory).2 := by
  have hstopped : Sound dotsFirst
      (if a.userTune.isSome then { a.stopTune with userTune := none } else a) := by
    split
    · exact ⟨h.stopTune.list, h.stopTune.player⟩
    · exact h
  rw [Alarm.play]
  split
  · exact h
  generalize (if a.userTune.isSome then { a.stopTune with userTune := none } else a) = b
    at hstopped ⊢
  split
  · exact hstopped
  split
  · exact hstopped
  · exact Sound.startTune (a := { b with userTune := some buffer })
      ⟨hstopped.list, hstopped.player⟩ hbuffer now

theorem Sound.playing (clock : ℕ → UInt64) :
    Playing dotsFirst clock (Check.enter clock a.queue a.player) :=
  ⟨h.list, h.player, one_pos, rfl⟩

/-- The tune that is played. -/
def Event.Plays (tune : List UInt8) : Event → Prop
  | .play buffer _ _ => buffer = tune
  | .check _ _ => True

theorem Sound.step {a' : Alarm} {tune : List UInt8} {e : Event} (hplays : Event.Plays tune e)
    (htune : ¬ RepeatsSilently dotsFirst (Player.started tune))
    (hstep : a.step dotsFirst e = some a') : Sound dotsFirst a' := by
  cases e with
  | play buffer now memory =>
    obtain rfl : buffer = tune := hplays
    obtain rfl := some.inj hstep
    exact h.play htune now memory
  | check clock rounds =>
    obtain ⟨r, hr, rfl⟩ := map_eq_some_iff.mp hstep
    have hplaying : Playing dotsFirst clock r :=
      (Loop.returns_of_exec hr).invariant (fun _ _ hs hround => hs.round hround)
        (fun _ _ hs hleave => (Check.round_eq_inl hleave).1 ▸ hs) (h.playing clock)
    exact ⟨hplaying.list, hplaying.player⟩

end

end Alarm

/-! ## A tune that is repeated without waiting -/

/-- The timer is due, and the player on its way back. -/
structure Stuck (dotsFirst : Bool) (tick : UInt64) (tune : List UInt8) (s : Check Unit Player) :
    Prop where
  list : s.queue.list = [()]
  due : (s.queue.timer ()).timeoutTick ≤ tick
  currentTick : s.currentTick = tick
  tune : s.env.tune = some tune
  silent : RepeatsSilently dotsFirst s.env

variable {tune : List UInt8}

theorem Stuck.nextNote (htune : p.tune = some tune) (hsilent : RepeatsSilently dotsFirst p)
    (hstart : RepeatsSilently dotsFirst (Player.started tune)) :
    (p.nextNote dotsFirst).1.delay = some 0 ∧ (p.nextNote dotsFirst).2.tune = some tune ∧
      RepeatsSilently dotsFirst (p.nextNote dotsFirst).2 := by
  cases hsilent with
  | restart h =>
    obtain ⟨tune', htune', rfl⟩ := Player.nextNote_restart h
    obtain rfl : tune = tune' := some.inj (htune.symm.trans htune')
    rw [h]
    exact ⟨rfl, rfl, hstart⟩
  | wait h rest =>
    rw [h]
    exact ⟨rfl, (Player.nextNote_wait h).1.trans htune, rest⟩

theorem Stuck.round {tick : UInt64} (h : Stuck dotsFirst tick tune s)
    (hstart : RepeatsSilently dotsFirst (Player.started tune)) :
    ∃ s', Check.round (fun _ => tick) (nextTrampoline dotsFirst) s = .inr s' ∧
      Stuck dotsFirst tick tune s' := by
  obtain ⟨hdelay, htune, hsilent⟩ := Stuck.nextNote h.tune h.silent hstart
  obtain ⟨henv, -, htick, hnext⟩ := fire_spec dotsFirst (fun _ => tick) h.list
  rw [hdelay] at hnext
  refine ⟨_, ?_, hnext.1, ?_, htick, henv ▸ htune, henv ▸ hsilent⟩
  · rw [Check.round, h.list]
    exact if_pos (h.currentTick ▸ h.due)
  · rw [hnext.2]
    simp

theorem Alarm.play_idle (haccepted : tune.length ≤ tuneMax ∧ tune.head?.getD 0 ≠ 0) (now : UInt64) :
    (idle.play tune now true).2 = { idle with userTune := some tune }.startTune tune now := by
  rw [Alarm.play, if_neg (not_lt.mpr haccepted.1)]
  rw [if_neg haccepted.2]
  rfl

theorem hrtimerCheck_eq_none (haccepted : tune.length ≤ tuneMax ∧ tune.head?.getD 0 ≠ 0)
    (hsilent : RepeatsSilently dotsFirst (Player.started tune)) (tick : UInt64) (rounds : ℕ) :
    let a := (Alarm.idle.play tune tick true).2
    hrtimerCheck (fun _ => tick) (nextTrampoline dotsFirst) rounds a.queue a.player = none := by
  rw [Alarm.play_idle haccepted]
  obtain ⟨hlist, htimeout, -, -⟩ := run_hrtCallAfter (fun _ => tick)
    (Alarm.length_hrtCancel_le (q := Alarm.idle.queue) (zero_le 1)) 0 0
  refine eq_none_iff_forall_ne_some.mpr fun r hr => ?_
  refine Loop.not_returns (I := Stuck dotsFirst tick tune) (fun s hs => hs.round hsilent) ?_ r
    (Loop.returns_of_exec hr)
  refine ⟨hlist, ?_, rfl, rfl, hsilent⟩
  exact UInt64.le_trans (UInt64.le_of_eq htimeout) (by simp)

open Alarm in
/-- **No tune hangs the timer interrupt**: every check of every run that plays it returns, if and
only if the player does not come back to the start of the tune without waiting. -/
theorem checks_return_iff (dotsFirst : Bool) {tune : List UInt8}
    (haccepted : tune.length ≤ tuneMax ∧ tune.head?.getD 0 ≠ 0) :
    (∀ events a, (∀ e ∈ events, Event.Plays tune e) → after dotsFirst events = some a →
      ∀ clock, Calm clock →
        ∃ rounds r,
          hrtimerCheck clock (nextTrampoline dotsFirst) rounds a.queue a.player = some r) ↔
      ¬ RepeatsSilently dotsFirst (Player.started tune) := by
  constructor
  · intro hreturns hsilent
    obtain ⟨rounds, r, hr⟩ := hreturns [.play tune 0 true] _ (by simp [Event.Plays]) rfl
      (fun _ => 0) ⟨⟨0, fun _ _ => rfl⟩, fun _ => by norm_num⟩
    cases (hrtimerCheck_eq_none haccepted hsilent 0 rounds).symm.trans hr
  · intro htune events a hplays ha clock hcalm
    have hsound : Sound dotsFirst a := by
      refine Run.Along.lift_invariant (I := Sound dotsFirst)
        (fun _ _ _ hplays h hstep => h.step hplays htune hstep) ?_ (sound_idle dotsFirst) a ha
      exact (along_of_forall hplays _).of_invariant (I := fun _ => True)
        (fun _ _ _ _ => trivial) (fun _ _ h _ _ _ => h) trivial
    obtain ⟨r, hr⟩ := (hsound.playing clock).exists_returns hcalm
    obtain ⟨rounds, hrounds⟩ := Loop.exists_exec_iff.mpr hr
    exact ⟨rounds, r, hrounds⟩

/-- The tune `C`. -/
theorem single_note_returns :
    ∃ a, Alarm.after false [.play [67, 0] 0 true] = some a ∧
      ∃ rounds r,
        hrtimerCheck (fun _ => 1) (nextTrampoline false) rounds a.queue a.player = some r := by
  have hwait : ((Player.started [67, 0]).nextNote false).1 = .wait 437500 := by decide +kernel
  have hwaits : ¬ RepeatsSilently false (Player.started [67, 0]) := by
    intro hsilent
    cases hsilent with
    | restart h =>
      rw [h] at hwait
      contradiction
    | wait h _ =>
      rw [h] at hwait
      exact absurd (Outcome.wait.inj hwait) (by decide)
  have hplays : ∀ e ∈ [.play [67, 0] 0 true], Alarm.Event.Plays [67, 0] e := by
    simp [Alarm.Event.Plays]
  have hbound : UInt64.toNat 1 + 2 ^ 32 ≤ 2 ^ 64 := by decide
  exact ⟨_, rfl, (checks_return_iff false (by decide)).mpr hwaits _ _ hplays rfl _
    ⟨⟨0, fun _ _ => rfl⟩, fun _ => hbound⟩⟩

/-- The tune `MB`: it is repeated, and there is nothing in it to wait for. -/
theorem empty_tune_hangs :
    ∃ a, Alarm.after false [.play [77, 66, 0] 0 true] = some a ∧
      ∀ rounds, hrtimerCheck (fun _ => 0) (nextTrampoline false) rounds a.queue a.player = none :=
  ⟨_, rfl, hrtimerCheck_eq_none (by decide)
    (.restart (show _ = (Outcome.restart, Player.started [77, 66, 0]) by decide +kernel)) 0⟩

end Tm4cPilot.ToneAlarm
