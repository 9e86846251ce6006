import Tm4cPilot.Lib.Run

/-!
# Alarms

Alarms are started and stopped, and fire in the tick in which they are due, in the order of their
starts. Those that repeat are then started again.
-/

/-- A start, a stop or a tick. -/
inductive Agenda.Event (ι : Type*) where
  | start (t : ι)
  | stop (t : ι)
  | tick
  deriving DecidableEq, Repr

/-- The alarms in the order of their starts, their times, and what fired in each tick. -/
structure Agenda (ι : Type*) where
  now : ℕ
  pending : List ι
  due : ι → ℕ
  firings : List (List ι)

namespace Agenda

open List Function

variable {ι : Type*} [DecidableEq ι] (period : ι → ℕ) (repeats : ι → Bool) (a : Agenda ι)

def empty : Agenda ι := ⟨0, [], fun _ => 0, []⟩

/-- Start an alarm, behind the others. -/
def start (t : ι) : Agenda ι :=
  { a with
    pending := a.pending.erase t ++ [t]
    due := update a.due t (a.now + period t) }

def stop (t : ι) : Agenda ι := { a with pending := a.pending.erase t }

/-- What fires in the next tick. -/
def fired : List ι := a.pending.filter fun t => a.due t = a.now + 1

/-- Let the alarms that are due fire. -/
def tick : Agenda ι where
  now := a.now + 1
  pending := (a.pending.filter fun t => a.due t ≠ a.now + 1) ++ a.fired.filter repeats
  due t := if t ∈ a.fired.filter repeats then a.now + 1 + period t else a.due t
  firings := a.firings ++ [a.fired]

def step : Event ι → Agenda ι
  | .start t => a.start period t
  | .stop t => a.stop t
  | .tick => a.tick period repeats

/-- The events one after the other. -/
def play (events : List (Event ι)) : Agenda ι := Run.run (step period repeats) a events

/-- What fired in tick `m`. -/
def firedAt (m : ℕ) : List ι := a.firings.getD (m - 1) []

/-- Every alarm is still to come. -/
structure Ahead : Prop where
  nodup : a.pending.Nodup
  ahead : ∀ t ∈ a.pending, a.now < a.due t
  length : a.firings.length = a.now

variable {a} {t u : ι} {e : Event ι} {events : List (Event ι)} {m : ℕ}

omit [DecidableEq ι] in
theorem ahead_empty : (empty : Agenda ι).Ahead :=
  ⟨nodup_nil, by simp [empty], rfl⟩

omit [DecidableEq ι] in
theorem mem_fired : t ∈ a.fired ↔ t ∈ a.pending ∧ a.due t = a.now + 1 := by
  simp [fired]

theorem mem_pending_tick : t ∈ (a.tick period repeats).pending ↔
    t ∈ a.pending ∧ (a.due t = a.now + 1 → repeats t = true) := by
  simp only [tick, fired, mem_append, mem_filter, decide_eq_true_iff]
  tauto

variable {period repeats}

theorem start_nodup (nodup : a.pending.Nodup) (t : ι) : (a.start period t).pending.Nodup := by
  refine nodup_append.mpr ⟨nodup.erase t, nodup_singleton t, ?_⟩
  rintro u isPending _ isNew rfl
  rw [mem_singleton.mp isNew] at isPending
  exact nodup.not_mem_erase isPending

theorem Ahead.step (ahead : a.Ahead) (positive : ∀ t, 0 < period t) (e : Event ι) :
    (a.step period repeats e).Ahead := by
  cases e with
  | start t =>
    refine ⟨?_, fun u isPending => ?_, ahead.length⟩
    · exact start_nodup ahead.nodup t
    · show a.now < update a.due t _ u
      by_cases same : u = t
      · subst same
        rw [update_self]
        exact Nat.lt_add_of_pos_right (positive u)
      · rw [update_of_ne same]
        have before : u ∈ a.pending.erase t := by
          simpa [Agenda.step, Agenda.start, same] using isPending
        exact ahead.ahead u (mem_of_mem_erase before)
  | stop t =>
    exact ⟨ahead.nodup.erase t, fun u isPending => ahead.ahead u (mem_of_mem_erase isPending),
      ahead.length⟩
  | tick =>
    refine ⟨?_, fun u isPending => ?_, ?_⟩
    · refine nodup_append.mpr ⟨ahead.nodup.filter _, (ahead.nodup.filter _).filter _, ?_⟩
      rintro u isLater _ isFired rfl
      have later := (mem_filter.mp isLater).2
      have now := (mem_fired.mp (mem_of_mem_filter isFired)).2
      simp [now] at later
    · have before := ((mem_pending_tick period repeats).mp isPending).1
      show a.now + 1 < if u ∈ a.fired.filter repeats then _ else _
      split_ifs with again
      · exact Nat.lt_add_of_pos_right (positive u)
      · have := ahead.ahead u before
        have : a.due u ≠ a.now + 1 := fun now => again (mem_filter.mpr
          ⟨mem_fired.mpr ⟨before, now⟩, ((mem_pending_tick period repeats).mp isPending).2 now⟩)
        omega
    · show (a.firings ++ [a.fired]).length = a.now + 1
      rw [length_append, ahead.length]
      rfl

theorem play_cons (a : Agenda ι) (e : Event ι) (events : List (Event ι)) :
    a.play period repeats (e :: events) = (a.step period repeats e).play period repeats events := rfl

theorem play_append (a : Agenda ι) (xs ys : List (Event ι)) :
    a.play period repeats (xs ++ ys) = (a.play period repeats xs).play period repeats ys :=
  foldl_append ..

theorem Ahead.play (ahead : a.Ahead) (positive : ∀ t, 0 < period t) (events : List (Event ι)) :
    (a.play period repeats events).Ahead :=
  Run.run_invariant (I := Ahead) (fun _ e before => before.step positive e) ahead events

theorem now_play (a : Agenda ι) (events : List (Event ι)) :
    (a.play period repeats events).now = a.now + events.count .tick := by
  induction events generalizing a with
  | nil => rfl
  | cons e events ih =>
    rw [play_cons, ih]
    cases e with
    | start t => simp [step, start]
    | stop t => simp [step, stop]
    | tick =>
      simp [step, tick]
      omega

/-! ## A tick as starts and stops -/

theorem filter_erase {xs : List ι} (nodup : xs.Nodup) (q : ι → Bool) (t : ι) :
    (xs.erase t).filter q = (xs.filter q).erase t := by
  rw [nodup.erase_eq_filter, (nodup.filter q).erase_eq_filter, filter_filter, filter_filter]
  simp only [Bool.and_comm]

theorem filter_start (period : ι → ℕ) (nodup : a.pending.Nodup) (t : ι) (q : ℕ → Bool) :
    ((a.start period t).pending.filter fun u => q ((a.start period t).due u)) =
      ((a.pending.erase t).filter fun u => q (a.due u)) ++
        if q (a.now + period t) = true then [t] else [] := by
  have others : ∀ u ∈ a.pending.erase t, q ((a.start period t).due u) = q (a.due u) := by
    intro u inside
    have ne : u ≠ t := by
      rintro rfl
      exact nodup.not_mem_erase inside
    exact congrArg q (update_of_ne ne _ _)
  rw [show (a.start period t).pending = a.pending.erase t ++ [t] from rfl, filter_append,
    filter_congr others]
  congr 1
  have here : (a.start period t).due t = a.now + period t := update_self ..
  rw [filter_cons, filter_nil, here]

theorem stop_start (nodup : a.pending.Nodup) (t : ι) :
    (a.stop t).start period t = a.start period t := by
  have gone : (a.pending.erase t).erase t = a.pending.erase t :=
    erase_of_not_mem nodup.not_mem_erase
  rw [start, start, stop, gone]

/-- An alarm that has fired is started again, or dropped. -/
def next (period : ι → ℕ) (repeats : ι → Bool) (a : Agenda ι) (t : ι) : Agenda ι :=
  if repeats t = true then a.start period t else a.stop t

/-- Do so for one alarm after the other. -/
def settle (period : ι → ℕ) (repeats : ι → Bool) : Agenda ι → List ι → Agenda ι
  | a, [] => a
  | a, t :: ts => settle period repeats (a.next period repeats t) ts

theorem filter_next (repeats : ι → Bool) (positive : ∀ t, 0 < period t) {ts : List ι}
    (nodup : a.pending.Nodup) (now : (a.pending.filter fun t => a.due t = a.now) = t :: ts) :
    ((a.next period repeats t).pending.filter fun u => (a.next period repeats t).due u = a.now) = ts ∧
      ((a.next period repeats t).pending.filter fun u => (a.next period repeats t).due u ≠ a.now) =
        (a.pending.filter fun u => a.due u ≠ a.now) ++ [t].filter repeats := by
  have first : t ∈ a.pending.filter fun t => a.due t = a.now := now ▸ mem_cons_self
  have isNow : a.due t = a.now := of_decide_eq_true (mem_filter.mp first).2
  have rest : ((a.pending.erase t).filter fun t => a.due t = a.now) = ts := by
    rw [filter_erase nodup, now, erase_cons_head]
  have later : ((a.pending.erase t).filter fun t => a.due t ≠ a.now) =
      a.pending.filter fun t => a.due t ≠ a.now := by
    rw [filter_erase nodup, erase_of_not_mem (by simp [isNow])]
  have notNow : period t ≠ 0 := (positive t).ne'
  by_cases again : repeats t = true
  · rw [next, if_pos again, filter_start period nodup t fun d => decide (d = a.now),
      filter_start period nodup t fun d => decide (d ≠ a.now), rest, later]
    simp [notNow, again]
  · rw [next, if_neg again]
    refine ⟨rest, ?_⟩
    rw [filter_cons_of_neg again, filter_nil, append_nil]
    exact later

theorem next_nodup (nodup : a.pending.Nodup) (t : ι) : (a.next period repeats t).pending.Nodup := by
  rw [next]
  split_ifs
  · exact start_nodup nodup t
  · exact nodup.erase t

theorem settle_eq (repeats : ι → Bool) (positive : ∀ t, 0 < period t) {ts : List ι}
    (nodup : a.pending.Nodup) (now : (a.pending.filter fun t => a.due t = a.now) = ts) :
    a.settle period repeats ts =
      { a with
        pending := (a.pending.filter fun t => a.due t ≠ a.now) ++ ts.filter repeats
        due := fun t => if t ∈ ts.filter repeats then a.now + period t else a.due t } := by
  induction ts generalizing a with
  | nil =>
    have all : (a.pending.filter fun t => a.due t ≠ a.now) = a.pending := by
      refine filter_eq_self.mpr fun t isPending => ?_
      simpa using filter_eq_nil_iff.mp now t isPending
    rw [settle, all]
    simp
  | cons t ts ih =>
    have fresh : t ∉ ts := (nodup_cons.mp (now ▸ nodup.filter _)).1
    obtain ⟨rest, later⟩ := filter_next repeats positive nodup now
    have isNow : (a.next period repeats t).now = a.now := by
      rw [next]
      split_ifs <;> rfl
    have firings : (a.next period repeats t).firings = a.firings := by
      rw [next]
      split_ifs <;> rfl
    have due : (fun u => if u ∈ ts.filter repeats then a.now + period u else
        (a.next period repeats t).due u) =
        fun u => if u ∈ (t :: ts).filter repeats then a.now + period u else a.due u := by
      funext u
      by_cases isT : u = t
      · subst isT
        by_cases again : repeats u = true <;> simp [next, start, stop, fresh, again]
      · by_cases again : repeats t = true <;> simp [next, start, stop, isT, again]
    rw [settle, ih (next_nodup nodup t) (by rw [isNow]; exact rest), isNow, firings, later, due,
      append_assoc, ← filter_append]
    rfl

/-- A tick settles the alarms that fire. -/
theorem Ahead.tick_eq (ahead : a.Ahead) (positive : ∀ t, 0 < period t) :
    a.tick period repeats = settle period repeats
      { a with now := a.now + 1, firings := a.firings ++ [a.fired] } a.fired := by
  have settled := settle_eq repeats positive
    (a := { a with now := a.now + 1, firings := a.firings ++ [a.fired] }) ahead.nodup rfl
  exact settled.symm

/-! ## When an alarm fires -/

theorem firings_play (a : Agenda ι) (events : List (Event ι)) :
    a.firings <+: (a.play period repeats events).firings := by
  refine Run.run_invariant (I := fun b : Agenda ι => a.firings <+: b.firings) (fun b e before => ?_)
    (prefix_refl _) events
  cases e with
  | start t => exact before
  | stop t => exact before
  | tick => exact before.trans (prefix_append _ _)

theorem Ahead.firedAt_play (ahead : a.Ahead) (past : 0 < m) (known : m ≤ a.now)
    (events : List (Event ι)) : (a.play period repeats events).firedAt m = a.firedAt m := by
  obtain ⟨later, isLater⟩ : a.firings <+: (a.play period repeats events).firings := firings_play a events
  have length := ahead.length
  unfold firedAt
  rw [← isLater, getD_eq_getElem?_getD, getD_eq_getElem?_getD, List.getElem?_append_left (by omega)]

theorem Ahead.firedAt_tick (ahead : a.Ahead) :
    (a.tick period repeats).firedAt (a.now + 1) = a.fired := by
  show (a.firings ++ [a.fired]).getD (a.now + 1 - 1) [] = a.fired
  rw [Nat.add_sub_cancel, ← ahead.length]
  simp

/-- The alarm is neither started nor stopped. -/
def Quiet (t : ι) (events : List (Event ι)) : Prop := ∀ e ∈ events, e ≠ .start t ∧ e ≠ .stop t

theorem mem_pending_step (period : ι → ℕ) (repeats : ι → Bool) (a : Agenda ι)
    (quiet : e ≠ .start t ∧ e ≠ .stop t) :
    t ∈ (a.step period repeats e).pending ↔ t ∈ a.pending ∧
      (e = .tick → a.due t = a.now + 1 → repeats t = true) := by
  cases e with
  | start u =>
    have other : t ≠ u := by
      rintro rfl
      exact quiet.1 rfl
    simp [step, start, other, mem_erase_of_ne other]
  | stop u =>
    have other : t ≠ u := by
      rintro rfl
      exact quiet.2 rfl
    simp [step, stop, mem_erase_of_ne other]
  | tick => simpa [step] using mem_pending_tick period repeats

theorem due_step (period : ι → ℕ) (repeats : ι → Bool) (a : Agenda ι)
    (quiet : e ≠ .start t ∧ e ≠ .stop t) : (a.step period repeats e).due t =
    if e = .tick ∧ t ∈ a.fired ∧ repeats t = true then a.now + 1 + period t else a.due t := by
  cases e with
  | start u =>
    have other : t ≠ u := by
      rintro rfl
      exact quiet.1 rfl
    simp [step, start, other]
  | stop u => simp [step, stop]
  | tick => simp [step, tick]

theorem now_step : (a.step period repeats e).now = if e = .tick then a.now + 1 else a.now := by
  cases e <;> simp [step, start, stop, tick]

/-- When an alarm left alone fires. -/
theorem Ahead.mem_firedAt (ahead : a.Ahead) (positive : ∀ t, 0 < period t) (quiet : Quiet t events)
    (later : a.now < m) (inside : m ≤ (a.play period repeats events).now) :
    t ∈ (a.play period repeats events).firedAt m ↔ t ∈ a.pending ∧
      (m = a.due t ∨ repeats t = true ∧ a.due t < m ∧ period t ∣ m - a.due t) := by
  induction events generalizing a with
  | nil => exact absurd (later.trans_le inside) (lt_irrefl _)
  | cons e events ih =>
    have calm := quiet e mem_cons_self
    have rest : Quiet t events := fun e' inEvents => quiet e' (mem_cons_of_mem e inEvents)
    have ahead' : (a.step period repeats e).Ahead := ahead.step positive e
    have isDue := due_step period repeats a calm
    rw [play_cons] at inside ⊢
    by_cases reached : (a.step period repeats e).now < m
    · rw [ih ahead' rest reached inside, mem_pending_step period repeats a calm, and_assoc]
      refine and_congr_right fun pending => ?_
      by_cases fires : e = .tick ∧ a.due t = a.now + 1
      · rw [now_step, if_pos fires.1, ← fires.2] at reached
        have notNow : m ≠ a.due t := by omega
        by_cases again : repeats t = true
        · rw [if_pos ⟨fires.1, mem_fired.mpr ⟨pending, fires.2⟩, again⟩, ← fires.2] at isDue
          simp only [isDue, again, implies_true, true_and, notNow, false_or]
          constructor
          · rintro (rfl | ⟨beyond, multiple⟩)
            · exact ⟨reached, by simp⟩
            · refine ⟨reached, ?_⟩
              rw [show m - a.due t = m - (a.due t + period t) + period t by omega]
              exact (Nat.dvd_add_self_right).mpr multiple
          · rintro ⟨-, multiple⟩
            have atLeast := Nat.le_of_dvd (by omega) multiple
            by_cases first : m = a.due t + period t
            · exact .inl first
            · refine .inr ⟨by omega, ?_⟩
              rw [show m - (a.due t + period t) = m - a.due t - period t by omega]
              exact Nat.dvd_sub multiple (dvd_refl _)
        · refine iff_of_false (fun h => again (h.1 fires.1 fires.2)) ?_
          rintro (now | ⟨repeated, -⟩)
          · exact notNow now
          · exact again repeated
      · rw [isDue, if_neg fun h => fires ⟨h.1, (mem_fired.mp h.2.1).2⟩]
        exact and_iff_right fun isTick now => absurd ⟨isTick, now⟩ fires
    · rw [ahead'.firedAt_play (by omega) (Nat.le_of_not_lt reached)]
      rw [now_step] at reached
      split_ifs at reached with isTick
      · obtain rfl : m = a.now + 1 := by omega
        rw [isTick, Agenda.step, ahead.firedAt_tick, mem_fired]
        refine and_congr_right fun pending => ⟨fun now => .inl now.symm, ?_⟩
        have notLate := ahead.ahead t pending
        rintro (now | ⟨-, past, -⟩)
        · exact now.symm
        · omega
      · exact absurd later reached

end Agenda
