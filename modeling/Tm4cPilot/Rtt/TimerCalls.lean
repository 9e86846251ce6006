import Tm4cPilot.Lib.Run
import Tm4cPilot.Rtt.Timer

/-!
# Timer calls from timeout functions

Timeout functions can call `rt_timer_start`, `rt_timer_stop` and `rt_timer_detach` for any timer.  A
check is cut into steps, with any calls in between.
-/

namespace Tm4cPilot.Rtt

open Option Run

/-! ## Hard timers -/

/-- The timers, and the one that `rt_timer_check` is calling. -/
structure Calls where
  timers : Timers
  firing : Option ℕ

/-- A call, or a step of `rt_timer_check`. -/
inductive Calls.Event where
  | init (t : ℕ) (time : UInt32) (periodic soft : Bool)
  | start (t : ℕ)
  | stop (t : ℕ)
  | detach (t : ℕ)
  | tick
  /-- The first timer has timed out, and its timeout function is called. -/
  | fire
  | finish
  deriving DecidableEq, Repr

namespace Calls

open Timers

variable (config : TimerConfig) (c : Calls)

def step : Event → Option Calls
  | .init t time periodic soft => some { c with timers := c.timers.timerInit t time periodic soft }
  | .start t => some { c with timers := c.timers.timerStart config t }
  | .stop t => some { c with timers := (c.timers.timerStop t).1 }
  | .detach t => some { c with timers := (c.timers.timerDetach t).1 }
  | .tick => some { c with timers := { c.timers with tick := c.timers.tick + 1 } }
  | .fire =>
    if c.firing = none then (c.timers.timerFire config).map fun fired => ⟨fired.2, some fired.1⟩
    else none
  | .finish => c.firing.map fun t => ⟨c.timers.timerReturn config t, none⟩

/-- The timers with a flag are linked and can be stopped. -/
structure Stoppable (timers : Timers) : Prop where
  activated : ∀ t, (timers.timer t).activated = true ↔ timers.Linked config t
  ok : ∀ t, (timers.timerStop t).2 = .ok ↔ timers.Linked config t
  unlinks : ∀ t u, (timers.timerStop t).1.Linked config u ↔ u ≠ t ∧ timers.Linked config u

/-- A timer that is initialised is in no list, one that is detached not activated or called just
now, and a one-shot timer is not started by its own timeout function. -/
def Allowed (c : Calls) : Event → Prop
  | .init t _ _ _ => ¬ c.timers.Linked config t
  | .detach t => (c.timers.timer t).activated = false ∨ c.firing = some t
  | .finish => ∀ t ∈ c.firing, (c.timers.timer t).periodic = false → ¬ c.timers.Linked config t
  | _ => True

instance (c : Calls) : (e : Event) → Decidable (Allowed config c e)
  | .init _ _ _ _ => inferInstanceAs (Decidable (¬ _))
  | .detach _ => inferInstanceAs (Decidable (_ ∨ _))
  | .finish => inferInstanceAs (Decidable (∀ t ∈ c.firing, _ → _))
  | .start _ | .stop _ | .tick | .fire => .isTrue trivial

/-- The flags are right, but for the timer that is called. -/
structure Flagged (c : Calls) : Prop where
  nodup : c.timers.Nodup
  others : ∀ t, c.firing ≠ some t →
    ((c.timers.timer t).activated = true ↔ c.timers.Linked config t)
  firing : ∀ t, c.firing = some t → c.timers.Linked config t → (c.timers.timer t).activated = true

variable {config c} {c' : Calls} {t : ℕ}

section

variable (flagged : Flagged config c)
include flagged

theorem Flagged.linked (t : ℕ) (isLinked : c.timers.Linked config t) :
    (c.timers.timer t).activated = true := by
  by_cases isFiring : c.firing = some t
  · exact flagged.firing t isFiring isLinked
  · exact (flagged.others t isFiring).mpr isLinked

theorem Flagged.of_one (nodup : c'.timers.Nodup)
    (same : ∀ u, u ≠ t → c'.timers.timer u = c.timers.timer u)
    (linked : ∀ u, u ≠ t → (c'.timers.Linked config u ↔ c.timers.Linked config u))
    (firing : ∀ u, u ≠ t → (c'.firing = some u → c.firing = some u) ∧
      (c.firing = some u → c'.firing = some u))
    (one : c'.timers.Linked config t → (c'.timers.timer t).activated = true)
    (here : c'.firing ≠ some t → (c'.timers.timer t).activated = true → c'.timers.Linked config t) :
    Flagged config c' := by
  refine ⟨nodup, fun u notFiring => ?_, fun u isFiring isLinked => ?_⟩
  · by_cases isT : u = t
    · subst isT
      exact ⟨here notFiring, one⟩
    · rw [same u isT, linked u isT]
      exact flagged.others u fun isFiring => notFiring ((firing u isT).2 isFiring)
  · by_cases isT : u = t
    · subst isT
      exact one isLinked
    · rw [same u isT]
      exact flagged.firing u ((firing u isT).1 isFiring) ((linked u isT).mp isLinked)

theorem Flagged.finish (isFiring : c.firing = some t)
    (oneShot : (c.timers.timer t).periodic = false → ¬ c.timers.Linked config t) :
    Flagged config ⟨c.timers.timerReturn config t, none⟩ := by
  have apart (u : ℕ) (other : u ≠ t) : c.firing ≠ some u := by
    rw [isFiring]
    exact fun same => other (some.inj same).symm
  by_cases again : (c.timers.timer t).periodic = true ∧ (c.timers.timer t).activated = true
  · have restart : c.timers.timerReturn config t =
        (c.timers.modify t fun timer => { timer with activated := false }).timerStart config t :=
      if_pos again
    refine flagged.of_one (t := t) (flagged.nodup.timerReturn t) (fun u other => ?_)
      (fun u other => ?_) (fun u other => ⟨nofun, fun h => absurd h (apart u other)⟩) ?_ ?_
    · simp [restart, other]
    · simp only [restart, linked_timerStart_of_ne other]
      exact linked_of_row rfl
    · simp [restart]
    · rw [restart]
      exact fun _ _ => linked_timerStart t
  · have stops : c.timers.timerReturn config t =
        c.timers.modify t fun timer => { timer with activated := false } := if_neg again
    refine flagged.of_one (t := t) (flagged.nodup.timerReturn t) (fun u other => ?_)
      (fun u other => ?_) (fun u other => ⟨nofun, fun h => absurd h (apart u other)⟩) ?_ ?_
    · simp [stops, other]
    · simp only [stops]
      exact linked_of_row rfl
    · -- a timer that is linked is periodic and activated
      intro isLinked
      simp only [stops] at isLinked
      have before : c.timers.Linked config t := isLinked
      refine absurd ⟨?_, flagged.linked t before⟩ again
      by_contra notPeriodic
      exact oneShot (by simpa using notPeriodic) before
    · simp [stops]

theorem Flagged.step {e : Event} (allowed : Allowed config c e) (h : c.step config e = some c') :
    Flagged config c' := by
  cases e with
  | init t time periodic soft =>
    cases some.inj h
    refine flagged.of_one (t := t) flagged.nodup (fun u other => ?_) (fun u other => ?_)
      (fun _ _ => ⟨id, id⟩) (fun isLinked => absurd isLinked allowed) ?_
    · simp [timerInit, other]
    · exact linked_of_row rfl
    · simp [timerInit]
  | start t =>
    cases some.inj h
    refine flagged.of_one (t := t) (flagged.nodup.timerStart t) (fun u other => ?_)
      (fun u other => linked_timerStart_of_ne other) (fun _ _ => ⟨id, id⟩) (by simp)
      fun _ _ => linked_timerStart t
    exact timer_timerStart_of_ne other
  | stop t =>
    cases some.inj h
    rw [timerStop]
    split_ifs with inactive
    · exact flagged
    · refine flagged.of_one (t := t) (flagged.nodup.timerRemove t)
        (fun u other => by simp [other]) (fun u other => linked_timerRemove_of_ne other)
        (fun _ _ => ⟨id, id⟩) (fun isLinked => absurd isLinked flagged.nodup.not_linked_timerRemove) ?_
      simp
  | detach t =>
    cases some.inj h
    refine flagged.of_one (t := t) (flagged.nodup.timerRemove t) (fun _ _ => rfl)
      (fun u other => linked_timerRemove_of_ne other) (fun _ _ => ⟨id, id⟩)
      (fun isLinked => absurd isLinked flagged.nodup.not_linked_timerRemove)
      fun notFiring activated => ?_
    rcases allowed with inactive | isFiring
    · rw [show (c.timers.timer t).activated = true from activated] at inactive
      cases inactive
    · exact absurd isFiring notFiring
  | tick =>
    cases some.inj h
    exact ⟨flagged.nodup, flagged.others, flagged.firing⟩
  | fire =>
    rw [Calls.step] at h
    split_ifs at h with idle
    obtain ⟨⟨t, timers⟩, fires, rfl⟩ := map_eq_some_iff.mp h
    obtain ⟨-, rfl⟩ := timerFire_eq fires
    refine flagged.of_one (t := t) (flagged.nodup.timerRemove t) (fun _ _ => rfl)
      (fun u other => linked_timerRemove_of_ne other) (fun u other => ⟨fun same => ?_, fun same => ?_⟩)
      (fun isLinked => absurd isLinked flagged.nodup.not_linked_timerRemove)
      fun notFiring => absurd rfl notFiring
    · exact absurd (some.inj same).symm other
    · rw [idle] at same
      cases same
  | finish =>
    obtain ⟨t, isFiring, rfl⟩ := map_eq_some_iff.mp h
    exact flagged.finish isFiring (allowed t isFiring)

theorem Flagged.stoppable (idle : c.firing = none) : Stoppable config c.timers := by
  have activated (t : ℕ) := flagged.others t (by rw [idle]; nofun)
  refine ⟨activated, fun t => ?_, fun t u => ?_⟩
  · rw [← activated, timerStop]
    split_ifs with inactive <;> simp [inactive]
  · by_cases same : u = t
    · subst same
      simp only [ne_eq, not_true_eq_false, false_and, iff_false]
      rw [timerStop]
      split_ifs with inactive
      · rw [← activated, inactive]
        simp
      · exact flagged.nodup.not_linked_timerRemove
    · rw [timerStop]
      split_ifs
      · simp [same]
      · simp only [ne_eq, same, not_false_eq_true, true_and]
        exact linked_timerRemove_of_ne same

end

/-- In every run of allowed calls the flags tell which timers are linked and can be stopped. -/
theorem stoppable_of_allowed (config : TimerConfig) (timers : Timers)
    (unlinked : ∀ soft i, timers.row soft i = [])
    (inactive : ∀ t, (timers.timer t).activated = false) (events : List Event)
    (allowed : Run.Along (lift (step config)) (fun c e => ∀ c' ∈ c, Allowed config c' e)
      (some ⟨timers, none⟩) events) :
    ∀ c ∈ run (lift (step config)) (some ⟨timers, none⟩) events, c.firing = none →
      Stoppable config c.timers := by
  have initial : Flagged config ⟨timers, none⟩ := by
    refine ⟨fun soft i => by simp [unlinked], fun t _ => ?_, nofun⟩
    simp [inactive, Linked, unlinked]
  intro c reached idle
  have flagged := allowed.lift_invariant (I := Flagged config)
    (fun _ _ _ allowed flagged h => flagged.step allowed h) initial c reached
  exact flagged.stoppable idle

/-- No timer is linked. -/
def fresh (tick : UInt32) (periodic soft : Bool) : Timers where
  tick := tick
  randomNr := 0
  timer _ := ⟨1, 0, false, periodic, soft⟩
  row _ _ := []

/-- A periodic timer is stopped and started again in its own call. -/
def restarting : List Event :=
  [.init 1 1 true false, .start 1, .tick, .fire, .stop 1, .start 1, .start 2, .finish, .tick, .fire,
    .stop 2, .finish]

theorem stoppable_of_allowed_restarting :
    ∃ c ∈ run (lift (step .default)) (some ⟨fresh 0 false false, none⟩) restarting,
      c.firing = none ∧ Stoppable .default c.timers ∧ c.timers.row false 0 = [1] := by
  have allowed : Run.Along (lift (step .default)) (fun o e => ∀ c ∈ o, Allowed .default c e)
      (some ⟨fresh 0 false false, none⟩) restarting := by decide +kernel
  have state : (run (lift (step .default)) (some ⟨fresh 0 false false, none⟩)
      restarting).map (fun c => (c.firing, c.timers.row false 0)) = some (none, [1]) := by
    decide +kernel
  obtain ⟨c, reached, values⟩ := map_eq_some_iff.mp state
  obtain ⟨idle, row⟩ := Prod.mk.inj values
  exact ⟨c, reached, idle, stoppable_of_allowed .default _ (fun _ _ => rfl) (fun _ => rfl) _ allowed c
    reached idle, row⟩

/-- A one-shot timer started in its own call cannot be stopped, and a detached one keeps its flag.
-/
theorem flag_lost :
    (run (lift (step .default)) (some ⟨fresh 0 false false, none⟩)
      [.start 1, .tick, .fire, .start 1, .finish]).map (fun c => (c.firing,
        (c.timers.timer 1).activated, decide (c.timers.Linked .default 1), (c.timers.timerStop 1).2)) =
      some (none, false, true, .error) ∧
    (run (lift (step .default)) (some ⟨fresh 0 false false, none⟩)
      [.start 1, .detach 1]).map (fun c => (c.firing, (c.timers.timer 1).activated,
        decide (c.timers.Linked .default 1), (c.timers.timerStop 1).2)) =
      some (none, true, false, .ok) := by
  decide +kernel

end Calls

end Tm4cPilot.Rtt
