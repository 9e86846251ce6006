import Tm4cPilot.Rtt.TimerCalls

/-!
# Timers that are stopped while they are checked

`rt_soft_timer_check` remembers the node after the timer that it calls, and that timer can be
stopped or detached before the check comes to it.
-/

namespace Tm4cPilot.Rtt

open Timers Option Function List Run

/-! ## The check of the soft timers -/

/-- The timer is started again. -/
def Timer.Renews (timer : Timer) : Prop := timer.periodic = true ∧ timer.activated = true
deriving Decidable

/-- Where the check is. A node is a timer, or the head of the list. -/
inductive SoftCheck where
  | idle
  /-- At the test of the loop, with the node `n`. -/
  | loop (currentTick : UInt32) (n : Option ℕ)
  | timedOut (t : ℕ)
  /-- The timer has been taken out of the list, and `n` is the node that was after it. -/
  | removed (t : ℕ) (n : Option ℕ)
  | running (t : ℕ) (n : Option ℕ)
  /-- The timeout function has returned, and the timer is periodic and activated. -/
  | restarting (currentTick : UInt32) (t : ℕ) (n : Option ℕ)
  deriving DecidableEq, Repr

/-- The node after a timer. -/
def Timers.nextNode (config : TimerConfig) (s : Timers) (t : ℕ) : Option ℕ :=
  if t ∈ s.row true config.last then (SkipList.after (some t) (s.row true config.last)).head? else some t

namespace SoftCheck

/-- The check goes on with the timer. -/
def Expects : SoftCheck → ℕ → Prop
  | .idle, _ => False
  | .loop _ n, t => n = some t
  | .timedOut u, t => u = t
  | .removed u n, t => u = t ∨ n = some t
  | .running _ n, t => n = some t
  | .restarting _ u n, t => u = t ∨ n = some t

instance : (check : SoftCheck) → (t : ℕ) → Decidable (check.Expects t)
  | .idle, _ => .isFalse id
  | .loop _ n, t => inferInstanceAs (Decidable (n = some t))
  | .timedOut u, t => inferInstanceAs (Decidable (u = t))
  | .removed u n, t => inferInstanceAs (Decidable (u = t ∨ n = some t))
  | .running _ n, t => inferInstanceAs (Decidable (n = some t))
  | .restarting _ u n, t => inferInstanceAs (Decidable (u = t ∨ n = some t))

/-- Its timeout function runs. -/
def Running (check : SoftCheck) (t : ℕ) : Prop :=
  match check with
  | .running u _ => u = t
  | _ => False

instance : (check : SoftCheck) → (t : ℕ) → Decidable (check.Running t)
  | .running u _, t => inferInstanceAs (Decidable (u = t))
  | .idle, _ | .loop _ _, _ | .timedOut _, _ | .removed _ _, _ | .restarting _ _ _, _ => .isFalse id

end SoftCheck

/-- The timers, both checks, the timers that are stopped, and those of them that have been called.
-/
structure SoftCalls where
  calls : Calls
  check : SoftCheck
  stopped : ℕ → Bool
  recalled : List ℕ

inductive SoftCalls.Event where
  | start (t : ℕ)
  | stop (t : ℕ)
  | detach (t : ℕ)
  | tick
  | fire
  | finish
  /-- The next step of the check of the soft timers. -/
  | soft
  deriving DecidableEq, Repr

namespace SoftCalls

variable (config : TimerConfig) (c : SoftCalls)

/-- The timers are changed. -/
def withTimers (timers : Timers) : SoftCalls := { c with calls := { c.calls with timers } }

/-- A stop is recorded. -/
def recordStop (t : ℕ) (result : Timers × Err) : SoftCalls :=
  { c.withTimers result.1 with
    stopped := if result.2 = .ok then update c.stopped t true else c.stopped }

/-- A call is recorded. -/
def recordCall (t : ℕ) : SoftCalls :=
  { c with recalled := if c.stopped t = true then c.recalled ++ [t] else c.recalled }

/-- A step of `rt_soft_timer_check`. -/
def softStep : SoftCalls :=
  match c.check with
  | .idle => { c with check := .loop c.calls.timers.tick (c.calls.timers.row true config.last).head? }
  | .loop _ none => { c with check := .idle }
  | .loop currentTick (some t) =>
    if c.calls.timers.TimedOut currentTick t then { c with check := .timedOut t }
    else { c with check := .idle }
  | .timedOut t =>
    { c.withTimers (c.calls.timers.timerRemove t) with
      check := .removed t (c.calls.timers.nextNode config t) }
  | .removed t n => { c.recordCall t with check := .running t n }
  | .running t n =>
    if (c.calls.timers.timer t).Renews then
      { c with check := .restarting c.calls.timers.tick t n }
    else
      { c.withTimers (c.calls.timers.modify t fun timer => { timer with activated := false }) with
        check := .loop c.calls.timers.tick n }
  | .restarting currentTick t n =>
    let timers := c.calls.timers.modify t fun timer => { timer with activated := false }
    { c.withTimers (timers.timerStart config t) with check := .loop currentTick n }

def step : Event → Option SoftCalls
  | .start t =>
    some { c.withTimers (c.calls.timers.timerStart config t) with
      stopped := update c.stopped t false }
  | .stop t => some (c.recordStop t (c.calls.timers.timerStop t))
  | .detach t => some (c.recordStop t (c.calls.timers.timerDetach t))
  | .tick => some (c.withTimers { c.calls.timers with tick := c.calls.timers.tick + 1 })
  | .fire =>
    (c.calls.step config .fire).bind fun calls =>
      calls.firing.map fun t => { c.recordCall t with calls }
  | .finish => (c.calls.step config .finish).map fun calls => { c with calls }
  | .soft => some (c.softStep config)

/-- No timer is linked. -/
def begin (timers : Timers) : SoftCalls := ⟨⟨timers, none⟩, .idle, fun _ => false, []⟩

/-- A stopped timer is in no list and is not called. -/
structure Stopped : Prop where
  unlinked : ∀ t, c.stopped t = true → ¬ c.calls.timers.Linked config t
  called : c.recalled = []

/-! ## When a timer can be stopped -/

/-- A timer is not stopped while the check expects it, nor a periodic one detached while its
function runs. -/
def Allowed : Event → Prop
  | .stop t => (c.calls.timers.timer t).activated = false ∨ ¬ c.check.Expects t
  | .detach t => ¬ c.check.Expects t ∧ (c.calls.firing = some t ∨ c.check.Running t →
      ¬ (c.calls.timers.timer t).Renews)
  | _ => True

instance (c : SoftCalls) : (e : Event) → Decidable (c.Allowed e)
  | .stop _ => inferInstanceAs (Decidable (_ ∨ ¬ _))
  | .detach _ => inferInstanceAs (Decidable (¬ _ ∧ (_ ∨ _ → ¬ _)))
  | .start _ | .tick | .fire | .finish | .soft => .isTrue trivial

/-- Stopped timers are not linked. -/
structure Quiet : Prop where
  nodup : c.calls.timers.Nodup
  unlinked : ∀ t, c.stopped t = true → ∀ soft i, t ∉ c.calls.timers.row soft i
  expected : ∀ t, c.check.Expects t → c.stopped t = false
  calm : ∀ t, c.calls.firing = some t ∨ c.check.Running t → c.stopped t = true →
    ¬ (c.calls.timers.timer t).Renews
  called : c.recalled = []

variable {config c} {c' : SoftCalls} {t : ℕ} {n : Option ℕ}

namespace Quiet

variable (quiet : c.Quiet)
include quiet

theorem remove (free : ¬ c.check.Expects t) {timers : Timers}
    (row : timers.row = (c.calls.timers.timerRemove t).row)
    (same : ∀ u, u ≠ t → timers.timer u = c.calls.timers.timer u)
    (calm : c.calls.firing = some t ∨ c.check.Running t → ¬ (timers.timer t).Renews) :
    Quiet { c.withTimers timers with stopped := update c.stopped t true } := by
  have nodup : timers.Nodup := by
    intro soft i
    rw [row]
    exact quiet.nodup.timerRemove t soft i
  refine ⟨nodup, fun u isStopped soft i => ?_, fun u isExpected => ?_, fun u runs isStopped => ?_,
    quiet.called⟩
  · show u ∉ timers.row soft i
    rw [row]
    by_cases isT : u = t
    · subst isT
      exact quiet.nodup.not_mem_timerRemove soft i
    · rw [mem_timerRemove_of_ne isT]
      exact quiet.unlinked u (by simpa [isT] using isStopped) soft i
  · have other : u ≠ t := by
      rintro rfl
      exact free isExpected
    show update c.stopped t true u = false
    rw [update_of_ne other]
    exact quiet.expected u isExpected
  · by_cases isT : u = t
    · subst isT
      exact calm runs
    · show ¬ (timers.timer u).Renews
      rw [same u isT]
      exact quiet.calm u runs (by simpa [isT] using isStopped)

theorem unlink (t : ℕ) : Quiet (c.withTimers (c.calls.timers.timerRemove t)) :=
  ⟨quiet.nodup.timerRemove t,
    fun u isStopped soft i inRow => quiet.unlinked u isStopped soft i (mem_of_mem_erase inRow),
    quiet.expected, quiet.calm, quiet.called⟩

theorem deactivate (t : ℕ) : Quiet (c.withTimers
    (c.calls.timers.modify t fun timer => { timer with activated := false })) := by
  refine ⟨quiet.nodup, quiet.unlinked, quiet.expected, fun u runs isStopped => ?_, quiet.called⟩
  by_cases isT : u = t
  · subst isT
    simp [withTimers, Timer.Renews]
  · simpa [withTimers, isT] using quiet.calm u runs isStopped

theorem restart (running : c.stopped t = false) :
    Quiet (c.withTimers (c.calls.timers.timerStart config t)) := by
  have others (u : ℕ) (isStopped : c.stopped u = true) : u ≠ t := by
    rintro rfl
    rw [running] at isStopped
    cases isStopped
  refine ⟨quiet.nodup.timerStart t, fun u isStopped soft i => ?_, quiet.expected,
    fun u runs isStopped => ?_, quiet.called⟩
  · show u ∉ (c.calls.timers.timerStart config t).row soft i
    rw [mem_timerStart_of_ne (others u isStopped)]
    exact quiet.unlinked u isStopped soft i
  · show ¬ ((c.calls.timers.timerStart config t).timer u).Renews
    rw [timer_timerStart_of_ne (others u isStopped)]
    exact quiet.calm u runs isStopped

theorem withCheck {check : SoftCheck} (expected : ∀ t, check.Expects t → c.stopped t = false)
    (running : ∀ t, check.Running t → c.check.Running t ∨ c.stopped t = false) :
    Quiet { c with check } := by
  refine ⟨quiet.nodup, quiet.unlinked, expected, fun u runs isStopped => ?_, quiet.called⟩
  rcases runs with isFiring | runs
  · exact quiet.calm u (.inl isFiring) isStopped
  · rcases running u runs with before | isStarted
    · exact quiet.calm u (.inr before) isStopped
    · rw [show c.stopped u = true from isStopped] at isStarted
      cases isStarted

theorem linked {soft : Bool} {i : ℕ} (inRow : t ∈ c.calls.timers.row soft i) :
    c.stopped t = false := by
  by_contra isStopped
  exact quiet.unlinked t (by simpa using isStopped) soft i inRow

theorem recordCall (running : c.stopped t = false) : Quiet (c.recordCall t) := by
  refine ⟨quiet.nodup, quiet.unlinked, quiet.expected, quiet.calm, ?_⟩
  rw [SoftCalls.recordCall, if_neg (by simp [running])]
  exact quiet.called

end Quiet

theorem Quiet.softStep (quiet : c.Quiet) : (c.softStep config).Quiet := by
  have expected := quiet.expected
  have calm := quiet.calm
  rw [SoftCalls.softStep]
  cases isCheck : c.check with
  | idle =>
    refine quiet.withCheck (fun t isHead => ?_) nofun
    exact quiet.linked (mem_of_mem_head? isHead)
  | loop currentTick n =>
    rw [isCheck] at expected
    cases n with
    | none => exact quiet.withCheck nofun nofun
    | some t =>
      dsimp only
      split_ifs
      · exact quiet.withCheck (fun u same => expected u (congrArg some same)) nofun
      · exact quiet.withCheck nofun nofun
  | timedOut t =>
    rw [isCheck] at expected
    refine (quiet.unlink t).withCheck (fun u isExpected => ?_) nofun
    rcases isExpected with rfl | isNext
    · exact expected t rfl
    · -- a node that is in no list leads back to the timer itself
      rw [nextNode] at isNext
      split_ifs at isNext with inRow
      · have behind := mem_of_mem_tail (mem_of_mem_head? isNext)
        have inLast : u ∈ c.calls.timers.row true config.last :=
          (dropWhile_sublist _).subset behind
        exact quiet.linked inLast
      · exact expected u (some.inj isNext)
  | removed t n =>
    rw [isCheck] at expected
    have running : c.stopped t = false := expected t (.inl rfl)
    refine (quiet.recordCall running).withCheck (fun u isNext => expected u (.inr isNext)) ?_
    rintro u rfl
    exact .inr running
  | running t n =>
    rw [isCheck] at expected calm
    dsimp only
    split_ifs with renews
    · refine quiet.withCheck (fun u isExpected => ?_) nofun
      rcases isExpected with rfl | isNext
      · by_contra isStopped
        exact calm t (.inr rfl) (by simpa using isStopped) renews
      · exact expected u isNext
    · exact (quiet.deactivate t).withCheck (fun u isNext => expected u isNext) nofun
  | restarting currentTick t n =>
    rw [isCheck] at expected
    refine Quiet.withCheck (Quiet.restart (c := c.withTimers _) (quiet.deactivate t) ?_)
      (fun u isNext => expected u (.inr isNext)) nofun
    exact expected t (.inl rfl)

theorem Quiet.step (quiet : c.Quiet) {e : Event} (allowed : c.Allowed e)
    (h : c.step config e = some c') : c'.Quiet := by
  cases e with
  | start t =>
    cases some.inj h
    have cleared : Quiet { c with stopped := update c.stopped t false } := by
      have less (u : ℕ) (isStopped : update c.stopped t false u = true) :
          c.stopped u = true := by
        by_cases isT : u = t
        · subst isT
          simp at isStopped
        · simpa [isT] using isStopped
      refine ⟨quiet.nodup, fun u isStopped => quiet.unlinked u (less u isStopped),
        fun u isExpected => ?_, fun u runs isStopped => quiet.calm u runs (less u isStopped),
        quiet.called⟩
      by_contra isStopped
      have before := less u (by simpa using isStopped)
      rw [quiet.expected u isExpected] at before
      cases before
    exact cleared.restart (update_self ..)
  | stop t =>
    cases some.inj h
    by_cases inactive : (c.calls.timers.timer t).activated = false
    · rw [timerStop, if_pos inactive, recordStop, if_neg (by simp)]
      exact quiet
    · rw [timerStop, if_neg inactive, recordStop, if_pos rfl]
      have free : ¬ c.check.Expects t := allowed.resolve_left inactive
      exact quiet.remove free rfl (fun u other => by simp [other]) (by simp [Timer.Renews])
  | detach t =>
    cases some.inj h
    exact quiet.remove allowed.1 rfl (fun _ _ => rfl) allowed.2
  | tick =>
    cases some.inj h
    exact ⟨quiet.nodup, quiet.unlinked, quiet.expected, quiet.calm, quiet.called⟩
  | fire =>
    obtain ⟨calls, fired, called⟩ := bind_eq_some_iff.mp h
    rw [Calls.step] at fired
    split_ifs at fired with idle
    obtain ⟨⟨t, timers⟩, fires, rfl⟩ := map_eq_some_iff.mp fired
    obtain ⟨inRow, rfl⟩ := timerFire_eq fires
    cases some.inj called
    have running := quiet.linked inRow
    have recorded := (quiet.recordCall running).unlink t
    refine ⟨recorded.nodup, recorded.unlinked, recorded.expected, fun u runs isStopped => ?_,
      recorded.called⟩
    rcases runs with isFiring | runs
    · obtain rfl : t = u := some.inj isFiring
      rw [show c.stopped t = true from isStopped] at running
      cases running
    · exact recorded.calm u (.inr runs) isStopped
  | finish =>
    obtain ⟨calls, finished, rfl⟩ := map_eq_some_iff.mp h
    obtain ⟨t, isFiring, rfl⟩ := map_eq_some_iff.mp finished
    have returned : Quiet (c.withTimers (c.calls.timers.timerReturn config t)) := by
      rw [timerReturn]
      split_ifs with renews
      · refine Quiet.restart (c := c.withTimers _) (quiet.deactivate t) ?_
        show c.stopped t = false
        by_contra isStopped
        exact quiet.calm t (.inl isFiring) (by simpa using isStopped) renews
      · exact quiet.deactivate t
    exact ⟨returned.nodup, returned.unlinked, returned.expected,
      fun u runs isStopped => returned.calm u (.inr (runs.resolve_left (by simp))) isStopped,
      returned.called⟩
  | soft =>
    cases some.inj h
    exact quiet.softStep

/-- In every run of allowed calls a stopped timer stays stopped until it is started again. -/
theorem stopped_of_allowed (config : TimerConfig) (timers : Timers)
    (unlinked : ∀ soft i, timers.row soft i = []) (events : List Event)
    (allowed : Run.Along (lift (step config)) (fun o e => ∀ c ∈ o, c.Allowed e)
      (some (begin timers)) events) :
    ∀ c ∈ run (lift (step config)) (some (begin timers)) events, c.Stopped config := by
  have initial : (begin timers).Quiet := by
    refine ⟨fun soft i => ?_, nofun, nofun, nofun, rfl⟩
    simp [begin, unlinked]
  intro c reached
  have quiet := allowed.lift_invariant (I := Quiet) (fun _ _ _ allowed quiet h => quiet.step allowed h)
    initial c reached
  exact ⟨fun t isStopped ⟨soft, i, _, inRow⟩ => quiet.unlinked t isStopped soft i inRow, quiet.called⟩

/-- A periodic timer is stopped by its own function, another after its call. -/
def stopping : List Event :=
  [.start 1, .start 2, .tick, .soft, .soft, .soft, .soft, .stop 1, .soft, .soft, .soft, .soft, .detach 1,
    .stop 2, .soft, .soft, .tick, .soft, .soft]

theorem stopped_of_allowed_stopping :
    ∃ c ∈ run (lift (step .default)) (some (begin (Calls.fresh 0xffffffff true true))) stopping,
      c.Stopped .default ∧ c.stopped 1 = true ∧ c.stopped 2 = true := by
  have allowed : Run.Along (lift (step .default)) (fun o e => ∀ c ∈ o, c.Allowed e)
      (some (begin (Calls.fresh 0xffffffff true true))) stopping := by decide +kernel
  have state : (run (lift (step .default)) (some (begin (Calls.fresh 0xffffffff true true)))
      stopping).map (fun c => (c.stopped 1, c.stopped 2)) = some (true, true) := by decide +kernel
  obtain ⟨c, reached, values⟩ := map_eq_some_iff.mp state
  exact ⟨c, reached, stopped_of_allowed .default _ (fun _ _ => rfl) _ allowed c reached,
    Prod.mk.inj values⟩

/-- The first timer stops the second one, which is the next of the check, and the check calls it. -/
theorem stopped_timer_called :
    (run (lift (step .default)) (some (begin (Calls.fresh 0 false true)))
      [.start 1, .start 2, .tick, .soft, .soft, .soft, .soft, .stop 2, .soft, .soft, .soft, .soft]).map
      (fun c => (c.stopped 2, c.recalled, c.check)) = some (true, [2], .running 2 (some 2)) ∧
    (run (lift (step .default)) (some (begin (Calls.fresh 0 true false)))
      [.start 1, .tick, .fire, .detach 1, .finish]).map
      (fun c => (c.stopped 1, decide (c.calls.timers.Linked .default 1))) = some (true, true) := by
  decide +kernel

end SoftCalls

end Tm4cPilot.Rtt
