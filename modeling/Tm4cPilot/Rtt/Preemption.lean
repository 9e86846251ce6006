import Tm4cPilot.Rtt.Scheduler

/-!
# Preemptive scheduling by priority

A log keeps when each thread last arrived at its ready list.  Of the ready threads with the lowest
priority number, the scheduler selects the one that arrived first.
-/

namespace Tm4cPilot.Rtt

open List Run

/-! ## Arrivals -/

instance (k : Kernel) (t : Tid) (c : Kernel.Call) : Decidable (c.Moves k t) := by
  cases c <;> unfold Kernel.Call.Moves <;> infer_instance

/-- The thread becomes ready, yields or gets another priority. -/
def Arrives (k : Kernel) (c : Kernel.Call) (k' : Kernel) (t : Tid) : Prop :=
  (k'.thread t).stat = .ready ∧ ((k.thread t).stat ≠ .ready ∨ c.Moves k t)
deriving Decidable

/-- The kernel, the number of calls, and when each thread last arrived. -/
structure Log where
  kernel : Kernel
  calls : ℕ
  arrival : Tid → ℕ

namespace Log

variable {l l' : Log}

def step (l : Log) (c : Kernel.Call) : Option Log :=
  (l.kernel.call c).map fun k' =>
    ⟨k', l.calls + 1, fun t => if Arrives l.kernel c k' t then l.calls else l.arrival t⟩

def boot (thread : Tid → UInt8 × Bool) : Log := ⟨Kernel.boot thread, 0, fun _ => 0⟩

/-- The ready lists are in the order of arrival. -/
structure Ordered (l : Log) : Prop where
  sorted : ∀ p, (l.kernel.list (.ready p)).Pairwise fun a b => l.arrival a < l.arrival b
  past : ∀ t, (l.kernel.thread t).stat = .ready → l.arrival t < l.calls

end Log

namespace Kernel

variable {k k' : Kernel}

/-- Threads that are not moved, and at most one that arrives. -/
def Tail (k : Kernel) (c : Call) (k' : Kernel) (p : UInt8) : Prop :=
  ∃ old : List Tid, old.Sublist (k.list (.ready p)) ∧ (∀ a ∈ old, ¬ c.Moves k a) ∧
    (k'.list (.ready p) = old ∨ ∃ x, k'.list (.ready p) = old ++ [x] ∧ Arrives k c k' x)

theorem Tail.of_eq {c : Call} {p : UInt8} (same : k'.list (.ready p) = k.list (.ready p))
    (unmoved : ∀ a ∈ k.list (.ready p), ¬ c.Moves k a) : Tail k c k' p :=
  ⟨_, .refl _, unmoved, Or.inl same⟩

theorem Tail.of_erase {c : Call} {p : UInt8} {t : Tid}
    (unmoved : ∀ a ∈ (k.list (.ready p)).erase t, ¬ c.Moves k a) {q : Prop} [Decidable q]
    (list : k'.list (.ready p) =
    if q then (k.list (.ready p)).erase t ++ [t] else (k.list (.ready p)).erase t)
    (arrives : q → Arrives k c k' t) : Tail k c k' p := by
  refine ⟨_, erase_sublist, unmoved, ?_⟩
  split_ifs at list with appended
  · exact Or.inr ⟨t, list, arrives appended⟩
  · exact Or.inl list

theorem Effect.tail {c : Call} (effect : k.Effect c k') (sound : k.Sound) (p : UInt8) :
    Tail k c k' p := by
  have unready {t : Tid} (h : (k.thread t).stat ≠ .ready) : t ∉ k.list (.ready p) :=
    fun member => h ((sound.queues.mem p t).mp member).1
  cases effect with
  | same quiet => exact .of_eq rfl fun a _ => quiet a
  | alone t moves list =>
    by_cases member : t ∈ k.list (.ready p)
    · obtain ⟨ready, here⟩ := (sound.queues.mem p t).mp member
      have short := list.resolve_left (not_not_intro ready)
      rw [← here] at short
      have single : k.list (.ready p) = [t] := by
        obtain ⟨u, only⟩ := length_eq_one_iff.mp
          (le_antisymm (Nat.lt_succ_iff.mp short) (length_pos_of_mem member))
        rw [only] at member ⊢
        rw [mem_singleton.mp member]
      exact ⟨[], nil_sublist _, by simp, Or.inr ⟨t, single, ready, Or.inr ((moves t).mpr rfl)⟩⟩
    · exact .of_eq rfl fun a inList moved => member ((moves a).mp moved ▸ inList)
  | move t moves ready =>
    refine .of_erase (t := t) (fun a member => ?_) (q := p = (k.thread t).currentPriority) ?_
      fun _ => ⟨ready, Or.inr ((moves t).mpr rfl)⟩
    · rw [moves]
      exact ((sound.queues.nodup p).mem_erase_iff.mp member).1
    · rw [sound.list_move]
      split_ifs with here
      · rfl
      · exact (sound.queues.erase_eq fun h => here h.2).symm
  | write t e r quiet timer => exact .of_eq rfl fun a _ => quiet a
  | leave t s r quiet started idle timer =>
    exact .of_erase (t := t) (fun a _ => quiet a) (q := False) (by simp) False.elim
  | retire t quiet started =>
    exact .of_erase (t := t) (fun a _ => quiet a) (q := False) (by simp [listInsertAfter]) False.elim
  | enter t thread quiet unready attributes timer priority =>
    refine .of_erase (t := t) (fun a _ => quiet a) (q := p = thread.currentPriority) ?_
      fun _ => ⟨by simp, Or.inl unready⟩
    simp
  | priority t new isChange =>
    have moves (u : Tid) : c.Moves k u ↔ u = t := by simp [isChange, Call.Moves, eq_comm]
    have unmoved : ∀ a ∈ (k.list (.ready p)).erase t, ¬ c.Moves k a := by
      intro a member
      rw [moves]
      exact ((sound.queues.nodup p).mem_erase_iff.mp member).1
    by_cases ready : (k.thread t).stat = .ready
    · refine .of_erase (t := t) unmoved (q := p = new) ?_ fun _ =>
        ⟨?_, Or.inr ((moves t).mpr rfl)⟩
      · simp [threadChangePriority, ready, Thread.withPriority]
      · simpa [thread_threadChangePriority, Thread.withPriority] using ready
    · refine .of_eq (by simp [threadChangePriority, ready]) ?_
      rw [erase_of_not_mem (unready ready)] at unmoved
      exact unmoved

end Kernel

namespace Log

variable {l l' : Log} {c : Kernel.Call}

theorem Ordered.step (ordered : l.Ordered) (sound : l.kernel.Sound) (running : l.kernel.Running)
    (h : l.step c = some l') : l'.Ordered := by
  obtain ⟨k', called, rfl⟩ := Option.map_eq_some_iff.mp h
  obtain ⟨pre, effect, switch⟩ := Kernel.call_effect sound running called
  have lists : k'.list = pre.list ∧ k'.thread = pre.thread := by
    cases switch <;> exact ⟨rfl, rfl⟩
  refine ⟨fun p => ?_, fun t ready => ?_⟩
  · obtain ⟨old, sub, unmoved, list⟩ := effect.tail sound p
    have kept (a : Tid) (member : a ∈ old) : ¬ Arrives l.kernel c k' a := by
      rintro ⟨-, fresh | moved⟩
      · exact fresh ((sound.queues.mem p a).mp (sub.subset member)).1
      · exact unmoved a member moved
    have sorted : old.Pairwise fun a b =>
        (if Arrives l.kernel c k' a then l.calls else l.arrival a) <
          if Arrives l.kernel c k' b then l.calls else l.arrival b := by
      refine ((ordered.sorted p).sublist sub).imp_of_mem fun {a b} inA inB less => ?_
      rwa [if_neg (kept a inA), if_neg (kept b inB)]
    dsimp only
    rw [lists.1]
    rcases list with same | ⟨x, appended, arrives⟩
    · rw [same]
      exact sorted
    · rw [appended, pairwise_append]
      refine ⟨sorted, pairwise_singleton _ _, fun a inA b inB => ?_⟩
      rw [mem_singleton] at inB
      subst inB
      have arrived : Arrives l.kernel c k' b := by
        unfold Arrives at arrives ⊢
        rw [lists.2]
        exact arrives
      rw [if_neg (kept a inA), if_pos arrived]
      exact ordered.past a ((sound.queues.mem p a).mp (sub.subset inA)).1
  · dsimp only
    split_ifs with arrives
    · exact Nat.lt_succ_self _
    · have before : (l.kernel.thread t).stat = .ready := by
        by_contra fresh
        exact arrives ⟨ready, Or.inl fresh⟩
      exact (ordered.past t before).trans (Nat.lt_succ_self _)

/-! ## Scheduling -/

/-- The other ready threads have higher numbers, or arrived later. -/
structure Foremost (l : Log) (t : Tid) : Prop where
  ready : (l.kernel.thread t).stat = .ready
  before : ∀ u, (l.kernel.thread u).stat = .ready → u ≠ t →
    (l.kernel.thread t).currentPriority < (l.kernel.thread u).currentPriority ∨
      ((l.kernel.thread t).currentPriority = (l.kernel.thread u).currentPriority ∧
        l.arrival t < l.arrival u)

/-- The views of the ready threads agree, and the foremost is selected. -/
structure Preemptive (l : Log) : Prop where
  bit : ∀ p, l.kernel.ReadyBit p ↔ l.kernel.list (.ready p) ≠ []
  linked : ∀ t, (l.kernel.thread t).stat = .ready ∨
      (l.kernel.currentThread = some t ∧ (l.kernel.thread t).stat ≠ .suspend) →
    ∀ p, (l.kernel.list (.ready p)).count t =
      if p = (l.kernel.thread t).currentPriority then 1 else 0
  unlinked : ∀ t, (l.kernel.thread t).stat = .suspend ∨ (l.kernel.thread t).stat = .close →
    ∀ p, t ∉ l.kernel.list (.ready p)
  selects : (∃ t, (l.kernel.thread t).stat = .ready) → l.kernel.currentThread ≠ none →
    ∃ k' t, l.kernel.schedule = some k' ∧ k'.currentThread = some t ∧ l.Foremost t
  starts : (∃ t, (l.kernel.thread t).stat = .ready) →
    ∃ k' t, l.kernel.systemSchedulerStart = some k' ∧ k'.currentThread = some t ∧ l.Foremost t

theorem Ordered.foremost (ordered : l.Ordered) (sound : l.kernel.Sound) {t : Tid}
    (selected : l.kernel.Selected t) : l.Foremost t := by
  refine ⟨selected.ready sound, fun u ready ne => ?_⟩
  have member : u ∈ l.kernel.list (.ready (l.kernel.thread u).currentPriority) :=
    (sound.queues.mem _ u).mpr ⟨ready, rfl⟩
  have lowest := selected.lowest _ (ne_nil_of_mem member)
  by_cases same : (l.kernel.thread t).currentPriority = (l.kernel.thread u).currentPriority
  · refine Or.inr ⟨same, ?_⟩
    obtain ⟨rest, list⟩ := head?_eq_some_iff.mp selected.first
    have sorted := ordered.sorted (l.kernel.thread t).currentPriority
    rw [list, pairwise_cons] at sorted
    rw [← same, list, mem_cons] at member
    exact sorted.1 u (member.resolve_left ne)
  · exact Or.inl (UInt8.lt_of_le_of_ne lowest same)

theorem Ordered.preemptive (ordered : l.Ordered) (sound : l.kernel.Sound)
    (running : l.kernel.Running) : l.Preemptive := by
  have found (nonempty : ∃ t, (l.kernel.thread t).stat = .ready) :
      ∃ p t, l.kernel.toThread = some (p, t) ∧ l.Foremost t := by
    obtain ⟨u, ready⟩ := nonempty
    obtain ⟨p, t, next⟩ := sound.queues.exists_toThread ready
    exact ⟨p, t, next, ordered.foremost sound (sound.queues.toThread_selected next)⟩
  refine ⟨sound.queues.bit, fun t active p => ?_, fun t idle p member => ?_,
    fun nonempty started => ?_, fun nonempty => ?_⟩
  · have ready : (l.kernel.thread t).stat = .ready := by
      rcases active with ready | ⟨current, notSuspended⟩
      · exact ready
      · exact (running t current).resolve_right notSuspended
    have member : t ∈ l.kernel.list (.ready p) ↔ p = (l.kernel.thread t).currentPriority := by
      simp [sound.queues.mem, ready]
    rw [(sound.queues.nodup p).count]
    simp only [member]
  · rw [((sound.queues.mem p t).mp member).1] at idle
    simp at idle
  · obtain ⟨p, t, next, foremost⟩ := found nonempty
    obtain ⟨k', scheduled, current⟩ := Kernel.schedule_of_toThread next started
    exact ⟨k', t, scheduled, current, foremost⟩
  · obtain ⟨p, t, next, foremost⟩ := found nonempty
    exact ⟨{ l.kernel with currentThread := some t }, t,
      by simp [Kernel.systemSchedulerStart, next], rfl, foremost⟩

/-- Every state of every run. -/
theorem preemptive_of_run (thread : Tid → UInt8 × Bool) (calls : List Kernel.Call) :
    ∀ l ∈ run (lift Log.step) (some (boot thread)) calls, l.Preemptive := by
  have invariant : ∀ l ∈ run (lift Log.step) (some (boot thread)) calls,
      l.Ordered ∧ l.kernel.Sound ∧ l.kernel.Running := by
    refine lift_invariant (fun l c l' h stepped => ?_) ⟨⟨?_, ?_⟩, Kernel.sound_boot thread⟩ calls
    · obtain ⟨ordered, sound, running⟩ := h
      refine ⟨ordered.step sound running stepped, ?_⟩
      obtain ⟨k', called, rfl⟩ := Option.map_eq_some_iff.mp stepped
      exact sound.call running called
    · simp [boot, Kernel.boot]
    · simp [boot, Kernel.boot, Thread.init]
  intro l reached
  obtain ⟨ordered, sound, running⟩ := invariant l reached
  exact ordered.preemptive sound running

/-- A thread of priority 10 yields to another, which sleeps and is woken by its timer. -/
theorem preemptive_of_run_yield :
    ∃ l ∈ run (lift Log.step) (some (boot fun t => (if t = 0 then 255 else 10, true)))
      [.startup 0, .startup 1, .startup 2, .schedulerStart, .yield, .sleep, .timeout 2,
        .changePriority 1 20, .schedule], l.Preemptive := by
  obtain ⟨l, reached⟩ := Option.isSome_iff_exists.mp (show (run (lift Log.step)
    (some (boot fun t => (if t = 0 then 255 else 10, true)))
    [.startup 0, .startup 1, .startup 2, .schedulerStart, .yield, .sleep, .timeout 2,
      .changePriority 1 20, .schedule]).isSome = true by decide +kernel)
  exact ⟨l, reached, preemptive_of_run _ _ l reached⟩

end Log

end Tm4cPilot.Rtt
