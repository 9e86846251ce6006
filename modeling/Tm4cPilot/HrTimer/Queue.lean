import Tm4cPilot.Lib.Loop
import Tm4cPilot.Lib.Run
import Tm4cPilot.Lib.StableQueue
import Tm4cPilot.Rtt.Kernel

/-!
# High-resolution timers

The timers of `hr_timer.c` and their list: `RT_TIMER_SKIP_LIST_LEVEL` is 1.  The calls are the
steps.
-/

namespace Tm4cPilot.HrTimer

open List Function

/-- `struct hrtimer`, with the bits of its flag, the number of its last start, and whether it was
stopped since. -/
structure Timer where
  initTick : UInt64
  timeoutTick : UInt64
  activated : Bool
  periodic : Bool
  serial : ℕ
  stopped : Bool
  deriving DecidableEq, Repr

/-- The timers and their list. -/
structure Queue (κ : Type*) where
  timer : κ → Timer
  list : List κ
  starts : ℕ

variable {κ σ : Type*}

namespace Queue

variable [DecidableEq κ] (q : Queue κ) (k : κ)

/-- A timer is changed. -/
def modify (f : Timer → Timer) : Queue κ :=
  { q with timer := update q.timer k (f (q.timer k)) }

def remove : Queue κ := { q with list := q.list.erase k }

/-- Remove a timer and clear `RT_TIMER_FLAG_ACTIVATED`. -/
def unlink : Queue κ := (q.remove k).modify k fun t => { t with activated := false }

/-- `hrtimer_init`.  The list is not looked at. -/
def hrtimerInit (time : UInt64) (periodic : Bool) : Queue κ :=
  q.modify k fun t =>
    { t with initTick := time, timeoutTick := 0, activated := false, periodic := periodic }

/-- The second section of `_hrtimer_start`: before the first later timeout. -/
def link : Queue κ :=
  { q with
    list := q.list.orderedInsert (fun a b => (q.timer a).timeoutTick < (q.timer b).timeoutTick) k
    starts := q.starts + 1 }.modify k fun t =>
      { t with activated := true, serial := q.starts, stopped := false }

/-- `_hrtimer_start` with the value it reads from the clock. -/
def hrtimerStart (now : UInt64) : Queue κ :=
  ((q.unlink k).modify k fun t => { t with timeoutTick := now + t.initTick }).link k

def hrtimerStop : Queue κ × Rtt.Err :=
  if (q.timer k).activated = false then (q.modify k fun t => { t with stopped := true }, .error)
  else ((q.unlink k).modify k fun t => { t with stopped := true }, .ok)

def hrtimerNextTimeoutTick : UInt64 :=
  match q.list with
  | [] => 0xffffffffffffffff
  | k :: _ => (q.timer k).timeoutTick

end Queue

/-- The calls a timeout function makes. -/
inductive Op (κ : Type*) where
  | init (k : κ) (time : UInt64) (periodic : Bool)
  | start (k : κ)
  | stop (k : κ)
  deriving DecidableEq, Repr

/-- The timeout functions, with a state of their own. -/
abbrev Callback (κ σ : Type*) := κ → σ → σ × List (Op κ)

/-- `hrtimer_check` in its loop. -/
structure Check (κ σ : Type*) where
  queue : Queue κ
  /-- The state of the timeout functions. -/
  env : σ
  /-- How often the clock has been read. -/
  reads : ℕ
  currentTick : UInt64
  called : List κ

namespace Check

variable [DecidableEq κ] (clock : ℕ → UInt64) (callback : Callback κ σ)

def perform (s : Queue κ × ℕ) : Op κ → Queue κ × ℕ
  | .init k time periodic => (s.1.hrtimerInit k time periodic, s.2)
  | .start k => (s.1.hrtimerStart k (clock s.2), s.2 + 1)
  | .stop k => ((s.1.hrtimerStop k).1, s.2)

/-- The queue when the function is called. -/
def entry (s : Check κ σ) (k : κ) : Queue κ × ℕ := (s.queue.unlink k, s.reads)

/-- The calls of the function. -/
def callout (s : Check κ σ) (k : κ) : Queue κ × ℕ :=
  Run.run (perform clock) (s.entry k) (callback k s.env).2

/-- A timer is called. -/
def fire (s : Check κ σ) (k : κ) : Check κ σ :=
  let (queue, reads) := s.callout clock callback k
  let s : Check κ σ := ⟨queue, (callback k s.env).1, reads + 1, clock reads, s.called ++ [k]⟩
  if (queue.timer k).periodic = true ∧ (queue.timer k).activated = true then
    { s with
      queue := (queue.modify k fun t => { t with activated := false }).hrtimerStart k
        (clock (reads + 1))
      reads := reads + 2 }
  else s

/-- A round of the loop. -/
def round (s : Check κ σ) : Check κ σ ⊕ Check κ σ :=
  match s.queue.list with
  | [] => .inl s
  | k :: _ =>
    if (s.queue.timer k).timeoutTick ≤ s.currentTick then .inr (s.fire clock callback k) else .inl s

/-- The start of `hrtimer_check`. -/
def enter (queue : Queue κ) (env : σ) : Check κ σ := ⟨queue, env, 1, clock 0, []⟩

end Check

/-- `hrtimer_check`, with a bound for the number of rounds. -/
def hrtimerCheck [DecidableEq κ] (clock : ℕ → UInt64) (callback : Callback κ σ) (rounds : ℕ)
    (queue : Queue κ) (env : σ) : Option (Check κ σ) :=
  Loop.exec (Check.round clock callback) rounds (Check.enter clock queue env)

theorem Check.fire_eq [DecidableEq κ] {clock : ℕ → UInt64} {callback : Callback κ σ}
    {s : Check κ σ} {k : κ}
    (h : ¬ (((s.callout clock callback k).1.timer k).periodic = true ∧
      ((s.callout clock callback k).1.timer k).activated = true)) :
    s.fire clock callback k =
      ⟨(s.callout clock callback k).1, (callback k s.env).1, (s.callout clock callback k).2 + 1,
        clock (s.callout clock callback k).2, s.called ++ [k]⟩ := if_neg h

/-! ## The list in order -/

namespace Queue

/-- The timeout is earlier, or the same with an earlier start. -/
def Before (q : Queue κ) : κ → κ → Prop :=
  StableQueue.Before (fun k => (q.timer k).timeoutTick.toNat) fun k => (q.timer k).serial

/-- The list is in order and has the activated timers. -/
structure Sound (q : Queue κ) : Prop where
  nodup : q.list.Nodup
  ordered : q.list.Pairwise q.Before
  linked : ∀ k, k ∈ q.list ↔ (q.timer k).activated = true
  serial_lt : ∀ k ∈ q.list, (q.timer k).serial < q.starts
  stopped : ∀ k ∈ q.list, (q.timer k).stopped = false

theorem Sound.congr {q q' : Queue κ} (h : q.Sound) {l : List κ} (hl : l.Sublist q.list)
    (hlist : q'.list = l) (htimer : ∀ k ∈ l, q'.timer k = q.timer k)
    (hlinked : ∀ k, k ∈ l ↔ (q'.timer k).activated = true) (hstarts : q'.starts = q.starts) :
    q'.Sound := by
  subst hlist
  refine ⟨h.nodup.sublist hl, ?_, hlinked, fun k hk => ?_, fun k hk => ?_⟩
  · refine (h.ordered.sublist hl).imp_of_mem fun ha hb hab => ?_
    rw [Before, StableQueue.Before, htimer _ ha, htimer _ hb]
    exact hab
  · rw [htimer k hk, hstarts]
    exact h.serial_lt k (hl.subset hk)
  · rw [htimer k hk]
    exact h.stopped k (hl.subset hk)

variable [DecidableEq κ] {q : Queue κ} {k u : κ}

theorem timer_modify_self (f : Timer → Timer) : (q.modify k f).timer k = f (q.timer k) :=
  update_self ..

theorem timer_modify_of_ne (hne : u ≠ k) (f : Timer → Timer) :
    (q.modify k f).timer u = q.timer u := update_of_ne hne ..

theorem list_modify (f : Timer → Timer) : (q.modify k f).list = q.list := rfl

theorem list_unlink : (q.unlink k).list = q.list.erase k := rfl

theorem field_modify {ρ : Type*} (field : Timer → ρ) {f : Timer → Timer}
    (hf : ∀ t, field (f t) = field t) (u : κ) :
    field ((q.modify k f).timer u) = field (q.timer u) := by
  by_cases heq : u = k
  · subst heq
    rw [timer_modify_self, hf]
  · rw [timer_modify_of_ne heq]

theorem field_unlink {ρ : Type*} (field : Timer → ρ)
    (hf : ∀ t : Timer, field { t with activated := false } = field t) (u : κ) :
    field ((q.unlink k).timer u) = field (q.timer u) := field_modify field hf u

theorem Sound.modify (h : q.Sound) (hk : k ∉ q.list) {f : Timer → Timer}
    (hf : (f (q.timer k)).activated = false) : (q.modify k f).Sound := by
  have hother (u : κ) (hu : u ∈ q.list) : u ≠ k := fun heq => hk (heq ▸ hu)
  refine h.congr (List.Sublist.refl _) rfl (fun u hu => timer_modify_of_ne (hother u hu) f)
    (fun u => ?_) rfl
  by_cases heq : u = k
  · subst heq
    rw [timer_modify_self, hf]
    exact iff_of_false hk Bool.false_ne_true
  · rw [timer_modify_of_ne heq, h.linked]

theorem Sound.unlink (h : q.Sound) : (q.unlink k).Sound := by
  refine h.congr (erase_sublist (a := k)) rfl (fun u hu => ?_) (fun u => ?_) rfl
  · exact timer_modify_of_ne (fun heq => h.nodup.not_mem_erase (heq ▸ hu)) _
  · by_cases heq : u = k
    · subst heq
      rw [Queue.unlink, timer_modify_self]
      exact iff_of_false h.nodup.not_mem_erase Bool.false_ne_true
    · rw [Queue.unlink, timer_modify_of_ne heq, mem_erase_of_ne heq, h.linked]
      rfl

theorem Sound.not_mem_unlink (h : q.Sound) : k ∉ (q.unlink k).list := h.nodup.not_mem_erase

theorem Sound.link (h : q.Sound) (hk : k ∉ q.list) : (q.link k).Sound := by
  have hother {u : κ} (hu : u ∈ q.list) : u ≠ k := fun heq => hk (heq ▸ hu)
  have hself : (q.link k).timer k = { q.timer k with
    activated := true, serial := q.starts, stopped := false } := update_self ..
  have hold {u : κ} (hne : u ≠ k) : (q.link k).timer u = q.timer u :=
    update_of_ne hne ..
  have htimeout (u : κ) : ((q.link k).timer u).timeoutTick = (q.timer u).timeoutTick := by
    by_cases heq : u = k
    · subst heq
      rw [hself]
    · rw [hold heq]
  have hmem {u : κ} : u ∈ (q.link k).list ↔ u = k ∨ u ∈ q.list := mem_orderedInsert _
  refine ⟨?_, ?_, fun u => ?_, fun u hu => ?_, fun u hu => ?_⟩
  · exact (perm_orderedInsert _ k q.list).nodup_iff.mpr (nodup_cons.mpr ⟨hk, h.nodup⟩)
  · refine StableQueue.pairwise_orderedInsert (fun a b => ?_) ?_ fun u hu => ?_
    · rw [htimeout, htimeout, UInt64.lt_iff_toNat_lt]
    · refine h.ordered.imp_of_mem fun ha hb hab => ?_
      rw [StableQueue.Before, hold (hother ha), hold (hother hb)]
      exact hab
    · rw [hself, hold (hother hu)]
      exact h.serial_lt u hu
  · rw [hmem]
    by_cases heq : u = k
    · subst heq
      simp [hself]
    · rw [hold heq, or_iff_right heq, h.linked]
  · rcases hmem.mp hu with rfl | hu
    · rw [hself]
      exact Nat.lt_succ_self _
    · rw [hold (hother hu)]
      exact (h.serial_lt u hu).trans (Nat.lt_succ_self _)
  · rcases hmem.mp hu with rfl | hu
    · rw [hself]
    · rw [hold (hother hu)]
      exact h.stopped u hu

theorem timer_hrtimerStart_self (now : UInt64) :
    (q.hrtimerStart k now).timer k =
      { q.timer k with
        timeoutTick := now + (q.timer k).initTick
        activated := true
        serial := q.starts
        stopped := false } := by
  rw [hrtimerStart, link, timer_modify_self]
  simp only [timer_modify_self, unlink]
  rfl

theorem timer_hrtimerStart_of_ne (hne : u ≠ k) (now : UInt64) :
    (q.hrtimerStart k now).timer u = q.timer u := by
  rw [hrtimerStart, link, timer_modify_of_ne hne]
  simp only [timer_modify_of_ne hne, unlink]
  rfl

theorem mem_hrtimerStart (now : UInt64) : u ∈ (q.hrtimerStart k now).list ↔ u = k ∨ u ∈ q.list := by
  rw [hrtimerStart, link, list_modify, mem_orderedInsert, list_modify, list_unlink]
  by_cases heq : u = k
  · exact iff_of_true (.inl heq) (.inl heq)
  · rw [mem_erase_of_ne heq]

theorem Sound.hrtimerStart (h : q.Sound) (now : UInt64) : (q.hrtimerStart k now).Sound := by
  have hout : k ∉ (q.unlink k).list := h.not_mem_unlink
  refine (h.unlink.modify hout ?_).link hout
  rw [Queue.unlink, timer_modify_self]

theorem Sound.hrtimerStop (h : q.Sound) : (q.hrtimerStop k).1.Sound := by
  rw [Queue.hrtimerStop]
  split
  · next hoff =>
    have hout : k ∉ q.list := by
      rw [h.linked, hoff]
      exact Bool.false_ne_true
    exact Sound.modify (f := fun t => { t with stopped := true }) h hout hoff
  · have hoff : ((q.unlink k).timer k).activated = false := by
      rw [Queue.unlink, timer_modify_self]
    exact Sound.modify (f := fun t => { t with stopped := true }) h.unlink h.not_mem_unlink hoff

theorem Sound.mem_hrtimerStop (h : q.Sound) :
    u ∈ (q.hrtimerStop k).1.list ↔ u ≠ k ∧ u ∈ q.list := by
  rw [Queue.hrtimerStop]
  split
  · next hoff =>
    rw [list_modify, and_iff_right_of_imp]
    rintro hu rfl
    rw [h.linked, hoff] at hu
    contradiction
  · rw [list_modify, list_unlink, h.nodup.mem_erase_iff]

theorem field_hrtimerStop {ρ : Type*} (field : Timer → ρ)
    (hf : ∀ t : Timer, field { t with activated := false } = field t)
    (hf' : ∀ t : Timer, field { t with stopped := true } = field t) (u : κ) :
    field ((q.hrtimerStop k).1.timer u) = field (q.timer u) := by
  rw [Queue.hrtimerStop]
  split
  · exact field_modify field hf' u
  · exact (field_modify field hf' u).trans (field_unlink field hf u)

theorem Sound.hrtimerInit (h : q.Sound) (hk : k ∉ q.list) (time : UInt64) (periodic : Bool) :
    (q.hrtimerInit k time periodic).Sound := h.modify hk rfl

end Queue

end Tm4cPilot.HrTimer
