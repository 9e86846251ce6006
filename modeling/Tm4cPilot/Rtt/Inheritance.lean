import Tm4cPilot.Lib.LockGraph
import Tm4cPilot.Rtt.Mutex

/-!
# Priority inheritance

Owners, waiters and priorities form a lock graph, on which the calls act as the operations of
`LockGraph`.  The bound of inheritance holds exactly if every call meets a condition.
-/

namespace Tm4cPilot.Rtt

open List Option Run Function UInt8

namespace Kernel

variable {k k' : Kernel} {t : Tid}

/-! ## Waiting threads -/

/-- The suspend lists hold suspended threads, each once. -/
structure Waiters (k : Kernel) : Prop where
  suspended : ∀ m, ∀ t ∈ k.list (.suspend m), (k.thread t).stat = .suspend
  nodup : ∀ m, (k.list (.suspend m)).Nodup
  once : ∀ m m' t, t ∈ k.list (.suspend m) → t ∈ k.list (.suspend m') → m = m'
  current : ∀ t ∈ k.currentThread, ∀ m, t ∉ k.list (.suspend m)

theorem Waiters.mono (waiters : k.Waiters)
    (sub : ∀ m, (k'.list (.suspend m)).Sublist (k.list (.suspend m)))
    (stat : ∀ m, ∀ t ∈ k'.list (.suspend m), (k'.thread t).stat = (k.thread t).stat)
    (current : ∀ t ∈ k'.currentThread, t ∈ k.currentThread ∨ (k'.thread t).stat = .ready) :
    k'.Waiters where
  suspended m t waits := (stat m t waits).trans (waiters.suspended m t ((sub m).subset waits))
  nodup m := (waiters.nodup m).sublist (sub m)
  once m m' t waits waits' := waiters.once m m' t ((sub m).subset waits) ((sub m').subset waits')
  current t isCurrent m waits := by
    rcases current t isCurrent with before | ready
    · exact waiters.current t before m ((sub m).subset waits)
    · rw [stat m t waits, waiters.suspended m t ((sub m).subset waits)] at ready
      cases ready

/-- What a call that does not change priorities leaves alone. -/
structure Calm (k k' : Kernel) : Prop where
  priority : ∀ t, (k.thread t).stat ≠ .init →
    (k'.thread t).currentPriority = (k.thread t).currentPriority
  started : ∀ t, (k.thread t).stat ≠ .init → (k'.thread t).stat ≠ .init
  waiting : ∀ m, (k'.list (.suspend m)).Sublist (k.list (.suspend m))
  waiters : k'.Waiters

theorem Calm.of_update (waiters : k.Waiters) (elsewhere : ∀ u, u ≠ t → k'.thread u = k.thread u)
    (priority : (k.thread t).stat ≠ .init →
    (k'.thread t).currentPriority = (k.thread t).currentPriority)
    (started : (k.thread t).stat ≠ .init → (k'.thread t).stat ≠ .init)
    (lists : (∀ m, k'.list (.suspend m) = (k.list (.suspend m)).erase t) ∨
    ((∀ m, k'.list (.suspend m) = k.list (.suspend m)) ∧ (k'.thread t).stat = (k.thread t).stat))
    (current : k'.currentThread = k.currentThread) : k.Calm k' := by
  have sub (m : ℕ) : (k'.list (.suspend m)).Sublist (k.list (.suspend m)) := by
    rcases lists with erased | ⟨same, -⟩
    · rw [erased]
      exact erase_sublist
    · rw [same]
  refine ⟨fun u => ?_, fun u => ?_, sub, waiters.mono sub (fun m u waits => ?_)
    fun u isCurrent => Or.inl (current ▸ isCurrent)⟩
  · by_cases same : u = t
    · exact same ▸ priority
    · rw [elsewhere u same]
      exact fun _ => rfl
  · by_cases same : u = t
    · exact same ▸ started
    · rw [elsewhere u same]
      exact id
  · by_cases same : u = t
    · subst same
      rcases lists with erased | ⟨-, keeps⟩
      · rw [erased] at waits
        exact absurd waits (waiters.nodup m).not_mem_erase
      · exact keeps
    · rw [elsewhere u same]

theorem Effect.calm {c : Call} (effect : k.Effect c k') (waiters : k.Waiters)
    (plain : ∀ t p, c ≠ .changePriority t p) : k.Calm k' := by
  have unchanged : k.Calm k := .of_update (t := 0) waiters (fun _ _ => rfl) (fun _ => rfl) id
    (Or.inr ⟨fun _ => rfl, rfl⟩) rfl
  cases effect with
  | same quiet => exact unchanged
  | alone t moves list => exact unchanged
  | move t moves ready =>
    exact .of_update (t := t) waiters (fun _ _ => rfl) (fun _ => rfl) id
      (Or.inl fun m => by simp [listInsertBefore]) rfl
  | write t e r quiet timer =>
    exact .of_update (t := t) waiters (fun u ne => by simp [ne]) (fun _ => by simp)
      (fun h => by simpa using h) (Or.inr ⟨fun _ => rfl, by simp⟩) rfl
  | leave t s r quiet started idle timer =>
    exact .of_update (t := t) waiters (fun u ne => by simp [ne]) (fun _ => by simp)
      (fun _ => by rcases idle with rfl | rfl <;> simp) (Or.inl fun m => by simp) (by simp)
  | retire t quiet started =>
    exact .of_update (t := t) waiters (fun u ne => by simp [listInsertAfter, ne])
      (fun _ => by simp [listInsertAfter]) (fun _ => by simp [listInsertAfter])
      (Or.inl fun m => by simp [listInsertAfter]) (by simp [listInsertAfter])
  | enter t thread quiet unready attributes timer priority =>
    exact .of_update (t := t) waiters (fun u ne => by simp [ne]) (fun h => by simpa using priority h)
      (fun _ => by simp) (Or.inl fun m => by simp) (by simp)
  | priority t p isChange => exact absurd isChange (plain t p)

theorem Switch.waiters (switch : k.Switch k') (sound : k.Sound) (waiters : k.Waiters) :
    k'.thread = k.thread ∧ k'.list = k.list ∧ k'.Waiters := by
  cases switch with
  | stay running => exact ⟨rfl, rfl, waiters⟩
  | next p q t found =>
    refine ⟨rfl, rfl, waiters.mono (fun m => .refl _) (fun m u _ => rfl) fun u isCurrent => ?_⟩
    obtain rfl : t = u := by simpa using isCurrent
    have ready : (k.thread t).stat = .ready := (sound.queues.toThread_selected found).ready sound
    exact Or.inr ready

theorem call_calm (sound : k.Sound) (running : k.Running) (waiters : k.Waiters) {c : Call}
    (plain : ∀ t p, c ≠ .changePriority t p) (h : k.call c = some k') : k.Calm k' := by
  obtain ⟨pre, effect, switch⟩ := call_effect sound running h
  have calm := effect.calm waiters plain
  obtain ⟨threads, lists, waiters'⟩ := switch.waiters (effect.sound sound) calm.waiters
  refine ⟨fun t => ?_, fun t => ?_, fun m => ?_, waiters'⟩
  · rw [threads]
    exact calm.priority t
  · rw [threads]
    exact calm.started t
  · rw [lists]
    exact calm.waiting m

/-! ## Inheriting and waiting -/

theorem Waiters.list_changePriority (waiters : k.Waiters) (t : Tid) (p : UInt8) (m : ℕ) :
    (k.threadChangePriority t p).list (.suspend m) = k.list (.suspend m) := by
  unfold threadChangePriority
  by_cases ready : (k.thread t).stat = .ready
  · have absent : t ∉ k.list (.suspend m) := by
      intro waits
      rw [waiters.suspended m t waits] at ready
      cases ready
    simp [ready, erase_of_not_mem absent]
  · simp [ready]

theorem Waiters.changePriority (waiters : k.Waiters) (t : Tid) (p : UInt8) :
    (k.threadChangePriority t p).Waiters := by
  refine waiters.mono (fun m => ?_) (fun m u _ => ?_) fun u isCurrent => Or.inl ?_
  · rw [waiters.list_changePriority]
  · rw [thread_threadChangePriority]
    by_cases same : u = t <;> simp [same, Thread.withPriority]
  · rwa [currentThread_threadChangePriority] at isCurrent

/-- A thread gets a priority. -/
structure Reprioritised (k : Kernel) (o : Tid) (q : UInt8) (k' : Kernel) : Prop where
  sound : k'.Sound
  waiters : k'.Waiters
  stat : ∀ u, (k'.thread u).stat = (k.thread u).stat
  priority : ∀ u, (k'.thread u).currentPriority = if u = o then q else (k.thread u).currentPriority
  lists : ∀ m, k'.list (.suspend m) = k.list (.suspend m)
  current : k'.currentThread = k.currentThread

theorem Sound.reprioritise (sound : k.Sound) (waiters : k.Waiters) (o : Tid) (p q : UInt8)
    {needed : Prop} [Decidable needed] (changed : needed → q = p)
    (kept : ¬ needed → q = (k.thread o).currentPriority) :
    k.Reprioritised o q (if needed then k.threadChangePriority o p else k) := by
  split_ifs with isNeeded
  · rw [changed isNeeded]
    refine ⟨sound.changePriority _ _, waiters.changePriority _ _, fun u => ?_, fun u => ?_,
      waiters.list_changePriority _ _, currentThread_threadChangePriority _ _⟩
    · rw [thread_threadChangePriority]
      by_cases same : u = o <;> simp [same, Thread.withPriority]
    · rw [thread_threadChangePriority]
      by_cases same : u = o <;> simp [same, Thread.withPriority]
  · rw [kept isNeeded]
    refine ⟨sound, waiters, fun _ => rfl, fun u => ?_, fun _ => rfl, rfl⟩
    by_cases same : u = o <;> simp [same]

theorem Running.reprioritised {q : UInt8} (running : k.Running) (changed : k.Reprioritised t q k') :
    k'.Running := by
  intro u isCurrent
  rw [changed.stat]
  exact running u (changed.current ▸ isCurrent)

theorem mem_insertByPriority (priority : Tid → UInt8) (t u : Tid) (threads : List Tid) :
    u ∈ insertByPriority priority t threads ↔ u = t ∨ u ∈ threads := by
  induction threads with
  | nil => simp [insertByPriority]
  | cons v threads ih =>
    rw [insertByPriority]
    split_ifs
    · simp
    · rw [mem_cons, ih, mem_cons]
      tauto

theorem nodup_insertByPriority (priority : Tid → UInt8) {t : Tid} {threads : List Tid}
    (nodup : threads.Nodup) (absent : t ∉ threads) :
    (insertByPriority priority t threads).Nodup := by
  induction threads with
  | nil => simp [insertByPriority]
  | cons v threads ih =>
    rw [insertByPriority]
    split_ifs
    · exact nodup_cons.mpr ⟨absent, nodup⟩
    · rw [mem_cons, not_or] at absent
      obtain ⟨fresh, nodup⟩ := nodup_cons.mp nodup
      refine nodup_cons.mpr ⟨?_, ih nodup absent.2⟩
      rw [mem_insertByPriority]
      exact not_or.mpr ⟨fun same => absent.1 same.symm, fresh⟩

/-- A thread begins to wait. -/
structure Suspended (k : Kernel) (m : ℕ) (t : Tid) (k' : Kernel) : Prop where
  sound : k'.Sound
  stat : ∀ u, (k'.thread u).stat = if u = t then .suspend else (k.thread u).stat
  priority : ∀ u, (k'.thread u).currentPriority = (k.thread u).currentPriority
  mem : ∀ u, u ∈ k'.list (.suspend m) ↔ u = t ∨ u ∈ k.list (.suspend m)
  nodup : (k'.list (.suspend m)).Nodup
  other : ∀ m', m' ≠ m → k'.list (.suspend m') = k.list (.suspend m')

theorem Sound.suspend (sound : k.Sound)
    (started : (k.thread t).stat = .ready ∨ (k.thread t).stat = .suspend)
    (unlinked : ∀ m, t ∉ k.list (.suspend m)) :
    (k.threadSuspend t).1.Sound ∧
      (∀ u, ((k.threadSuspend t).1.thread u).stat = if u = t then .suspend else (k.thread u).stat) ∧
      (∀ u, ((k.threadSuspend t).1.thread u).currentPriority = (k.thread u).currentPriority) ∧
      ∀ m, (k.threadSuspend t).1.list (.suspend m) = k.list (.suspend m) := by
  by_cases ready : (k.thread t).stat = .ready
  · rw [threadSuspend_of_ready ready]
    refine ⟨sound.leave started (Or.inl rfl) (by simp), fun u => ?_, fun u => ?_, fun m => ?_⟩
    · by_cases same : u = t <;> simp [same]
    · by_cases same : u = t <;> simp [same]
    · simp [erase_of_not_mem (unlinked m)]
  · rw [threadSuspend_of_not_ready ready]
    refine ⟨sound, fun u => ?_, fun _ => rfl, fun _ => rfl⟩
    by_cases same : u = t
    · simp [same, started.resolve_left ready]
    · simp [same]

theorem exists_ipcListSuspend (k : Kernel) (m : ℕ) (t : Tid) (flag : IpcFlag) :
    ∃ threads, k.ipcListSuspend m t flag = { (k.threadSuspend t).1 with
        list := update (k.threadSuspend t).1.list (.suspend m) threads } ∧
      (∀ u, u ∈ threads ↔ u = t ∨ u ∈ (k.threadSuspend t).1.list (.suspend m)) ∧
      (((k.threadSuspend t).1.list (.suspend m)).Nodup →
        t ∉ (k.threadSuspend t).1.list (.suspend m) → threads.Nodup) := by
  cases flag with
  | fifo =>
    refine ⟨_, rfl, fun u => ?_, fun nodup absent => ?_⟩
    · rw [mem_append, mem_singleton, or_comm]
    · exact nodup_append.mpr ⟨nodup, nodup_singleton t, by
        rintro u waits _ isT rfl
        exact absent (mem_singleton.mp isT ▸ waits)⟩
  | prio => exact ⟨_, rfl, fun u => mem_insertByPriority .., nodup_insertByPriority _⟩

theorem Sound.ipcListSuspend (sound : k.Sound) (waiters : k.Waiters)
    (started : (k.thread t).stat = .ready ∨ (k.thread t).stat = .suspend)
    (unlinked : ∀ m, t ∉ k.list (.suspend m)) (m : ℕ) (flag : IpcFlag) :
    k.Suspended m t (k.ipcListSuspend m t flag) := by
  obtain ⟨sound', stat, priority, lists⟩ := sound.suspend started unlinked
  obtain ⟨threads, result, mem, nodup⟩ := exists_ipcListSuspend k m t flag
  rw [lists] at mem nodup
  rw [result]
  exact ⟨sound'.of_perm rfl rfl fun p => by simp, stat, priority, by simpa using mem,
    by simpa using nodup (waiters.nodup m) (unlinked m), fun m' ne => by simpa [ne] using lists m'⟩

/-- The owner inherits, and the thread is suspended. -/
structure Waits (k : Kernel) (m : ℕ) (o t : Tid) (k' : Kernel) : Prop where
  sound : k'.Sound
  stat : ∀ u, (k'.thread u).stat = if u = t then .suspend else (k.thread u).stat
  priority : ∀ u, (k'.thread u).currentPriority.toNat = if u = o then
    min (k.thread o).currentPriority.toNat (k.thread t).currentPriority.toNat
    else (k.thread u).currentPriority.toNat
  mem : ∀ u, u ∈ k'.list (.suspend m) ↔ u = t ∨ u ∈ k.list (.suspend m)
  nodup : (k'.list (.suspend m)).Nodup
  other : ∀ m', m' ≠ m → k'.list (.suspend m') = k.list (.suspend m')

theorem Sound.mutexWait (sound : k.Sound) (waiters : k.Waiters)
    (started : (k.thread t).stat = .ready ∨ (k.thread t).stat = .suspend)
    (unlinked : ∀ m, t ∉ k.list (.suspend m)) (m : ℕ) (o : Tid) (flag : IpcFlag) (time : ℤ) :
    k.Waits m o t (k.mutexWait m o t flag time) := by
  -- the owner inherits
  obtain ⟨k₁, isK₁⟩ : ∃ k₁, k₁ = if (k.thread t).currentPriority < (k.thread o).currentPriority
    then k.threadChangePriority o (k.thread t).currentPriority else k := ⟨_, rfl⟩
  have inherits : k.Reprioritised o (if (k.thread t).currentPriority < (k.thread o).currentPriority
      then (k.thread t).currentPriority else (k.thread o).currentPriority) k₁ := by
    rw [isK₁]
    exact sound.reprioritise waiters o _ _ (fun urgent => if_pos urgent) (fun calm => if_neg calm)
  have least : (if (k.thread t).currentPriority < (k.thread o).currentPriority
      then (k.thread t).currentPriority else (k.thread o).currentPriority).toNat =
      min (k.thread o).currentPriority.toNat (k.thread t).currentPriority.toNat := by
    split_ifs with urgent
    · exact (min_eq_right (lt_iff_toNat_lt.mp urgent).le).symm
    · exact (min_eq_left (Nat.not_lt.mp (mt lt_iff_toNat_lt.mpr urgent))).symm
  -- the thread is suspended
  have suspended := inherits.sound.ipcListSuspend inherits.waiters (t := t)
    (by rw [inherits.stat]; exact started) (fun m => by rw [inherits.lists]; exact unlinked m) m flag
  have waits : k.Waits m o t (k₁.ipcListSuspend m t flag) := by
    refine ⟨suspended.sound, fun u => ?_, fun u => ?_, fun u => ?_, suspended.nodup, fun m' ne => ?_⟩
    · rw [suspended.stat, inherits.stat]
    · rw [suspended.priority, inherits.priority, ← least]
      split_ifs <;> rfl
    · rw [suspended.mem, inherits.lists]
    · rw [suspended.other m' ne, inherits.lists]
  -- the timer is started
  unfold Kernel.mutexWait
  dsimp only
  rw [← isK₁]
  split_ifs
  · have idle : ((k₁.ipcListSuspend m t flag).thread t).stat = .suspend := by
      rw [waits.stat, if_pos rfl]
    refine ⟨waits.sound.modify rfl (fun _ => rfl) (fun started => ?_) fun _ => idle, fun u => ?_,
      fun u => ?_, waits.mem, waits.nodup, waits.other⟩
    · exact (waits.sound.attributes t started).written _ _ true
    · rw [← waits.stat u]
      by_cases same : u = t <;> simp [same]
    · rw [← waits.priority u]
      by_cases same : u = t <;> simp [same]
  · exact waits

theorem Waits.mem_iff {o : Tid} (waits : k.Waits m o t k') (m' : ℕ) (u : Tid) :
    u ∈ k'.list (.suspend m') ↔ m' = m ∧ u = t ∨ u ∈ k.list (.suspend m') := by
  by_cases same : m' = m
  · simp [same, waits.mem]
  · simp [same, waits.other m' same]

theorem once_of_mem_iff (once : ∀ m m' u, u ∈ k.list (.suspend m) → u ∈ k.list (.suspend m') → m = m')
    (mem_iff : ∀ m' u, u ∈ k'.list (.suspend m') ↔ m' = m ∧ u = t ∨ u ∈ k.list (.suspend m'))
    (unlinked : ∀ m, t ∉ k.list (.suspend m)) (m₁ m₂ : ℕ) (u : Tid)
    (in₁ : u ∈ k'.list (.suspend m₁)) (in₂ : u ∈ k'.list (.suspend m₂)) : m₁ = m₂ := by
  rcases (mem_iff m₁ u).mp in₁ with ⟨rfl, rfl⟩ | before₁
  · rcases (mem_iff m₂ u).mp in₂ with ⟨rfl, -⟩ | before₂
    · rfl
    · exact absurd before₂ (unlinked m₂)
  · rcases (mem_iff m₂ u).mp in₂ with ⟨rfl, rfl⟩ | before₂
    · exact absurd before₁ (unlinked m₁)
    · exact once m₁ m₂ u before₁ before₂

theorem Waits.switched {o : Tid} {k'' : Kernel} (waits : k.Waits m o t k') (waiters : k.Waiters)
    (unlinked : ∀ m, t ∉ k.list (.suspend m)) (h : k'.schedule = some k'') : k''.Waiters := by
  have suspended (m' : ℕ) (u : Tid) (inList : u ∈ k'.list (.suspend m')) :
      (k'.thread u).stat = .suspend := by
    rw [waits.stat]
    rcases (waits.mem_iff m' u).mp inList with ⟨-, rfl⟩ | before
    · rw [if_pos rfl]
    · rw [waiters.suspended m' u before, ite_self]
  obtain ⟨p, q, next, found, rfl⟩ := schedule_eq h
  refine ⟨suspended, fun m' => ?_, once_of_mem_iff waiters.once waits.mem_iff unlinked,
    fun u isCurrent m' inList => ?_⟩
  · by_cases same : m' = m
    · rw [same]
      exact waits.nodup
    · exact (waits.other m' same).symm ▸ waiters.nodup m'
  · -- the thread switched to is ready, so it is in no list
    obtain rfl : next = u := by simpa using isCurrent
    have ready := (waits.sound.queues.toThread_selected found).ready waits.sound
    rw [suspended m' next inList] at ready
    cases ready

/-- What resuming a waiter and the switch that follows change. -/
structure Resumed (k : Kernel) (w : Tid) (k' : Kernel) : Prop where
  sound : k'.Sound
  running : k'.Running
  waiters : k'.Waiters
  started : ∀ u, (k.thread u).stat ≠ .init → (k'.thread u).stat ≠ .init
  priority : ∀ u, (k'.thread u).currentPriority = (k.thread u).currentPriority
  lists : ∀ m, k'.list (.suspend m) = (k.list (.suspend m)).erase w

theorem Sound.resumed (sound : k.Sound) (running : k.Running) (waiters : k.Waiters) {w : Tid}
    (suspended : (k.thread w).stat = .suspend) (h : (k.threadResume w).1.schedule = some k') :
    k.Resumed w k' := by
  obtain ⟨sound₁, running₁⟩ := sound.call running (c := .resume w) rfl
  have calm₁ := call_calm sound running waiters (c := .resume w) (by simp) rfl
  obtain ⟨sound₂, running₂⟩ := sound₁.call running₁ (c := .schedule) h
  have calm₂ := call_calm sound₁ running₁ calm₁.waiters (c := .schedule) (by simp) h
  refine ⟨sound₂, running₂, calm₂.waiters, fun u started => ?_, fun u => ?_, fun m => ?_⟩
  · exact calm₂.started u (calm₁.started u started)
  · obtain ⟨_, _, _, _, rfl⟩ := schedule_eq h
    rw [threadResume_of_suspend suspended]
    by_cases same : u = w <;> simp [same]
  · obtain ⟨_, _, _, _, rfl⟩ := schedule_eq h
    rw [threadResume_of_suspend suspended]
    simp

end Kernel

/-! ## The lock graph -/

namespace Locks

variable {s s' : Locks} {m : ℕ} {t : Tid}

/-- The lock graph. -/
def graph (s : Locks) : LockGraph Tid ℕ ℕ where
  owner m := (s.mutex m).owner
  waiting m := s.kernel.list (.suspend m)
  priority t := (s.kernel.thread t).currentPriority.toNat

/-- What every call keeps. -/
structure Sound (s : Locks) : Prop where
  kernel : s.kernel.Sound
  running : s.kernel.Running
  waiters : s.kernel.Waiters
  started : ∀ m, ∀ o ∈ (s.mutex m).owner, (s.kernel.thread o).stat ≠ .init
  apart : ∀ m, ∀ o ∈ (s.mutex m).owner, o ∉ s.kernel.list (.suspend m)
  free : ∀ m, 0 < (s.mutex m).value → s.kernel.list (.suspend m) = []

/-- A thread that begins to wait is not more urgent than an owner that the owner waits for; one that
gives up a mutex does not fall behind those that wait for its others, and its first waiter is as
urgent as the rest. -/
def KeepsBound (s : Locks) : Call → Prop
  | .thread _ => True
  | .take m time => ∀ t ∈ s.kernel.currentThread, ∀ o ∈ (s.mutex m).owner, o ≠ t →
      (s.mutex m).value = 0 → time ≠ 0 → s.graph.priority t < s.graph.priority o →
      ∀ m', o ∈ s.graph.waiting m' → ∀ o' ∈ s.graph.owner m',
        s.graph.priority o' ≤ s.graph.priority t
  | .release m => ∀ t ∈ s.kernel.currentThread, t ∈ (s.mutex m).owner → (s.mutex m).hold = 1 →
      (∀ m', m' ≠ m → t ∈ s.graph.owner m' → ∀ u ∈ s.graph.waiting m',
        (s.mutex m).originalPriority.toNat ≤ s.graph.priority u) ∧
      ∀ w ∈ (s.graph.waiting m).head?, ∀ u ∈ (s.graph.waiting m).tail,
        s.graph.priority w ≤ s.graph.priority u

theorem Sound.of_calm (sound : s.Sound) (kernel : s'.kernel.Sound) (running : s'.kernel.Running)
    (calm : s.kernel.Calm s'.kernel)
    (mutex : ∀ m, (s'.mutex m).owner = (s.mutex m).owner ∧ (s'.mutex m).value = (s.mutex m).value) :
    s'.Sound where
  kernel := kernel
  running := running
  waiters := calm.waiters
  started m o owns := calm.started o (sound.started m o ((mutex m).1 ▸ owns))
  apart m o owns waits := sound.apart m o ((mutex m).1 ▸ owns) ((calm.waiting m).subset waits)
  free m positive := by
    have none := sound.free m ((mutex m).2 ▸ positive)
    exact sublist_nil.mp (none ▸ calm.waiting m)

theorem Sound.bounded_of_calm (sound : s.Sound) (bounded : s.graph.Bounded)
    (calm : s.kernel.Calm s'.kernel) (mutex : ∀ m, (s'.mutex m).owner = (s.mutex m).owner) :
    s'.graph.Bounded := by
  refine bounded.mono (fun m o owns => ?_) (fun m u waits => (calm.waiting m).subset waits)
    (fun m o owns => ?_) fun m u waits => ?_
  · simpa [graph, mutex] using owns
  · have owns : o ∈ (s.mutex m).owner := by simpa [graph, mutex] using owns
    exact congrArg toNat (calm.priority o (sound.started m o owns))
  · have waiting := sound.waiters.suspended m u ((calm.waiting m).subset waits)
    exact congrArg toNat (calm.priority u (by simp [waiting]))

/-- The bound is kept exactly under the condition. -/
def Exact (s : Locks) (c : Call) (s' : Locks) : Prop :=
  s'.Sound ∧ (s.graph.Bounded → (s'.graph.Bounded ↔ s.KeepsBound c))

theorem Exact.of_graph {c : Call} {g : LockGraph Tid ℕ ℕ} (result : s'.Sound ∧ s'.graph = g)
    (condition : s.graph.Bounded → (g.Bounded ↔ s.KeepsBound c)) : s.Exact c s' :=
  ⟨result.1, fun bounded => by rw [result.2, condition bounded]⟩

theorem Sound.exact_of_calm (sound : s.Sound) {c : Call} (kernel : s'.kernel.Sound)
    (running : s'.kernel.Running) (calm : s.kernel.Calm s'.kernel)
    (mutex : ∀ m, (s'.mutex m).owner = (s.mutex m).owner ∧ (s'.mutex m).value = (s.mutex m).value)
    (keeps : s.KeepsBound c) : s.Exact c s' :=
  ⟨sound.of_calm kernel running calm mutex, fun bounded =>
    iff_of_true (sound.bounded_of_calm bounded calm fun m => (mutex m).1) keeps⟩

theorem Sound.writeError (sound : s.Sound) (t : Tid) (e : Err) :
    (s.kernel.modify t fun thread => { thread with error := e }).Sound ∧
      (s.kernel.modify t fun thread => { thread with error := e }).Running ∧
      s.kernel.Calm (s.kernel.modify t fun thread => { thread with error := e }) := by
  have effect : s.kernel.Effect .schedule
      (s.kernel.modify t fun thread => { thread with error := e }) :=
    .write t e (s.kernel.thread t).timer (fun _ h => h) (Or.inl rfl)
  refine ⟨effect.sound sound.kernel, fun u current => ?_, effect.calm sound.waiters (by simp)⟩
  have running := sound.running u current
  by_cases same : u = t
  · simpa [same] using same ▸ running
  · simpa [same] using running

theorem graph_writeError (t : Tid) (e : Err) :
    (⟨s.kernel.modify t fun thread => { thread with error := e }, s.mutex⟩ : Locks).graph =
      s.graph := by
  unfold graph
  congr 1
  funext u
  by_cases same : u = t <;> simp [same]

theorem Sound.thread_exact (sound : s.Sound) {c : Kernel.Call}
    (plain : ∀ t p, c ≠ .changePriority t p) (h : s.call (.thread c) = some s') :
    s.Exact (.thread c) s' := by
  obtain ⟨k', called, rfl⟩ := map_eq_some_iff.mp h
  obtain ⟨kernel, running⟩ := sound.kernel.call sound.running called
  exact sound.exact_of_calm kernel running
    (Kernel.call_calm sound.kernel sound.running sound.waiters plain called)
    (fun _ => ⟨rfl, rfl⟩) trivial

theorem setMutex_same {k : Kernel} {mutex : Mutex} (owner : mutex.owner = (s.mutex m).owner)
    (value : mutex.value = (s.mutex m).value) (m' : ℕ) :
    ((setMutex ⟨k, s.mutex⟩ m mutex).mutex m').owner = (s.mutex m').owner ∧
      ((setMutex ⟨k, s.mutex⟩ m mutex).mutex m').value = (s.mutex m').value := by
  by_cases same : m' = m
  · simp [setMutex, same, owner, value]
  · simp [setMutex, same]

/-- A mutex is written that can have this owner and these waiters. -/
theorem Sound.set (sound : s.Sound) {k : Kernel} (kernel : k.Sound) (running : k.Running)
    (waiters : k.Waiters)
    (started : ∀ u, (s.kernel.thread u).stat ≠ .init → (k.thread u).stat ≠ .init)
    (elsewhere : ∀ m', m' ≠ m → k.list (.suspend m') = s.kernel.list (.suspend m')) (mutex : Mutex)
    (owner : ∀ o ∈ mutex.owner, (k.thread o).stat ≠ .init ∧ o ∉ k.list (.suspend m))
    (free : 0 < mutex.value → k.list (.suspend m) = []) :
    (setMutex ⟨k, s.mutex⟩ m mutex).Sound := by
  refine ⟨kernel, running, waiters, fun m' o owns => ?_, fun m' o owns inList => ?_,
    fun m' positive => ?_⟩
  · by_cases same : m' = m
    · exact (owner o (by simpa [setMutex, same] using owns)).1
    · exact started o (sound.started m' o (by simpa [setMutex, same] using owns))
  · by_cases same : m' = m
    · subst same
      exact (owner o (by simpa [setMutex] using owns)).2 inList
    · exact sound.apart m' o (by simpa [setMutex, same] using owns) (elsewhere m' same ▸ inList)
  · by_cases same : m' = m
    · subst same
      exact free (by simpa [setMutex] using positive)
    · exact (elsewhere m' same).trans (sound.free m' (by simpa [setMutex, same] using positive))

theorem graph_set {k : Kernel}
    (elsewhere : ∀ m', m' ≠ m → k.list (.suspend m') = s.kernel.list (.suspend m'))
    (mutex : Mutex) :
    (setMutex ⟨k, s.mutex⟩ m mutex).graph =
      ⟨update s.graph.owner m mutex.owner,
        update s.graph.waiting m (k.list (.suspend m)),
        fun u => (k.thread u).currentPriority.toNat⟩ := by
  unfold graph setMutex
  congr 1
  · funext m'
    by_cases same : m' = m <;> simp [same]
  · funext m'
    by_cases same : m' = m
    · simp [same]
    · simp [same, elsewhere m' same]

section

variable (sound : s.Sound)
include sound

theorem Sound.take_available (current : s.kernel.currentThread = some t)
    (available : 0 < (s.mutex m).value) (mutex : Mutex) (owner : mutex.owner = some t) :
    (s.setMutex m mutex).Sound ∧ (s.graph.Bounded → (s.setMutex m mutex).graph.Bounded) := by
  have free := sound.free m available
  constructor
  · refine sound.set sound.kernel sound.running sound.waiters (fun _ h => h) (fun _ _ => rfl) mutex
      (fun o owns => ⟨?_, by simp [free]⟩) fun _ => free
    obtain rfl : t = o := by simpa [owner] using owns
    rcases sound.running t current with ready | suspended
    · simp [ready]
    · simp [suspended]
  · intro bounded
    have taken : (s.setMutex m mutex).graph = s.graph.take m t := by
      refine (graph_set (fun _ _ => rfl) mutex).trans ?_
      rw [owner, LockGraph.take]
      congr 1
      exact update_eq_self m s.graph.waiting
    rw [taken]
    exact bounded.take free t

theorem Sound.wait_exact (current : s.kernel.currentThread = some t) {o : Tid}
    (owns : (s.mutex m).owner = some o) (other : t ≠ o) (taken : ¬ 0 < (s.mutex m).value)
    {k k' : Kernel} (waits : s.kernel.Waits m o t k) (h : k.schedule = some k') :
    (⟨k', s.mutex⟩ : Locks).Sound ∧ (s.graph.Bounded →
      ((⟨k', s.mutex⟩ : Locks).graph.Bounded ↔
        (s.graph.priority t < s.graph.priority o → ∀ m', o ∈ s.graph.waiting m' →
          ∀ o' ∈ s.graph.owner m', s.graph.priority o' ≤ s.graph.priority t))) := by
  obtain ⟨kernel', running'⟩ := (Kernel.schedule_switch h).sound waits.sound
  have waiters' := waits.switched sound.waiters (sound.waiters.current t current) h
  obtain ⟨p, q, next, found, rfl⟩ := Kernel.schedule_eq h
  refine ⟨⟨kernel', running', waiters', fun m' o' owns' => ?_, fun m' o' owns' inList => ?_,
    fun m' positive => ?_⟩, fun bounded => ?_⟩
  · show (k.thread o').stat ≠ .init
    rw [waits.stat]
    split_ifs
    · simp
    · exact sound.started m' o' owns'
  · rcases (waits.mem_iff m' o').mp inList with ⟨rfl, rfl⟩ | before
    · exact other (some.inj (owns'.symm.trans owns))
    · exact sound.apart m' o' owns' before
  · have ne : m' ≠ m := by
      rintro rfl
      exact taken positive
    exact (waits.other m' ne).trans (sound.free m' positive)
  · have isWait : (⟨{ k with currentThread := some next, currentPriority := q }, s.mutex⟩ :
        Locks).graph = s.graph.wait m o t (k.list (.suspend m)) := by
      unfold graph LockGraph.wait
      congr 1
      · funext m'
        by_cases same : m' = m
        · simp [same]
        · simp [same, waits.other m' same]
      · funext u
        by_cases same : u = o <;> simp [same, waits.priority]
    rw [isWait]
    exact bounded.wait_iff owns (fun m' => sound.apart m' o) other waits.mem

theorem Sound.take_exact {time : ℤ} (h : s.call (.take m time) = some s') :
    s.Exact (.take m time) s' := by
  obtain ⟨result, taken, rfl⟩ := map_eq_some_iff.mp h
  obtain ⟨t, current, _⟩ := bind_eq_some_iff.mp taken
  obtain ⟨kernel, running, calm⟩ := sound.writeError t .ok
  have cleared : Locks.Sound ⟨s.writeError t .ok, s.mutex⟩ :=
    sound.of_calm kernel running calm fun _ => ⟨rfl, rfl⟩
  have graph := graph_writeError (s := s) t .ok
  cases took_of_mutexTake current taken with
  | again own =>
    refine sound.exact_of_calm kernel running calm (setMutex_same rfl rfl) ?_
    intro u isCurrent o owns other
    rw [own] at owns
    rw [current] at isCurrent
    exact absurd ((some.inj owns).symm.trans (some.inj isCurrent)) other
  | available _ positive =>
    have taken := cleared.take_available (t := t) (m := m) current positive
    refine ⟨(taken _ rfl).1, fun bounded =>
      iff_of_true ((taken _ rfl).2 (graph.symm ▸ bounded)) ?_⟩
    intro u _ o _ _ unavailable
    rw [unavailable] at positive
    exact absurd positive (lt_irrefl 0)
  | refused _ _ instant =>
    obtain ⟨kernel, running, calm⟩ := sound.writeError t .timeout
    refine sound.exact_of_calm kernel running calm (fun _ => ⟨rfl, rfl⟩) ?_
    intro u _ o _ _ _ waiting
    exact absurd instant waiting
  | @waits o k owns other unavailable patient next =>
    have waits := kernel.mutexWait cleared.waiters (running t current)
      (cleared.waiters.current t current) m o (s.mutex m).flag time
    obtain ⟨sound', exact'⟩ := cleared.wait_exact (t := t) current owns other unavailable waits next
    refine ⟨sound', fun bounded => ?_⟩
    rw [graph] at exact'
    rw [exact' bounded]
    have zero : (s.mutex m).value = 0 := by
      rw [← UInt16.toNat_inj]
      have := mt UInt16.lt_iff_toNat_lt.mpr unavailable
      simpa using this
    simp [KeepsBound, current, owns, other.symm, zero, patient]

theorem Sound.hand_over {q : UInt8} {k k' : Kernel} (restored : s.kernel.Reprioritised t q k)
    {w : Tid} {rest : List Tid} (queue : s.kernel.list (.suspend m) = w :: rest)
    (h : (k.threadResume w).1.schedule = some k') (mutex : Mutex) (owner : mutex.owner = some w)
    (value : mutex.value = (s.mutex m).value) :
    (setMutex ⟨k', s.mutex⟩ m mutex).Sound ∧
      (setMutex ⟨k', s.mutex⟩ m mutex).graph = s.graph.release m t q.toNat := by
  have waits : w ∈ s.kernel.list (.suspend m) := queue ▸ mem_cons_self
  have suspended := sound.waiters.suspended m w waits
  have resumed := restored.sound.resumed (sound.running.reprioritised restored) restored.waiters
    ((restored.stat w).trans suspended) h
  have elsewhere (m' : ℕ) (ne : m' ≠ m) :
      k'.list (.suspend m') = s.kernel.list (.suspend m') := by
    rw [resumed.lists, restored.lists,
      erase_of_not_mem fun waits' => ne (sound.waiters.once m' m w waits' waits)]
  have here : k'.list (.suspend m) = rest := by
    rw [resumed.lists, restored.lists, queue, erase_cons_head]
  have started (u : Tid) (h : (s.kernel.thread u).stat ≠ .init) : (k'.thread u).stat ≠ .init :=
    resumed.started u (restored.stat u ▸ h)
  constructor
  · refine sound.set resumed.sound resumed.running resumed.waiters started elsewhere mutex
      (fun o owns => ?_) fun positive => ?_
    · obtain rfl : w = o := by simpa [owner] using owns
      have nodup := sound.waiters.nodup m
      rw [queue, nodup_cons] at nodup
      exact ⟨started w (by simp [suspended]), here ▸ nodup.1⟩
    · -- a mutex with waiters is not available
      have none := sound.free m (value ▸ positive)
      rw [queue] at none
      cases none
  · rw [graph_set elsewhere, owner, here]
    congr 1
    · simp [graph, queue]
    · simp [graph, queue]
    · funext u
      by_cases same : u = t <;> simp [graph, same, resumed.priority, restored.priority]

theorem Sound.set_free {q : UInt8} {k : Kernel} (restored : s.kernel.Reprioritised t q k)
    (queue : s.kernel.list (.suspend m) = []) (mutex : Mutex) (owner : mutex.owner = none) :
    (setMutex ⟨k, s.mutex⟩ m mutex).Sound ∧
      (setMutex ⟨k, s.mutex⟩ m mutex).graph = s.graph.release m t q.toNat := by
  constructor
  · refine sound.set restored.sound (sound.running.reprioritised restored) restored.waiters
      (fun u started => restored.stat u ▸ started) (fun m' _ => restored.lists m') mutex
      (fun o owns => ?_) fun _ => (restored.lists m).trans queue
    rw [owner] at owns
    cases owns
  · rw [graph_set fun m' _ => restored.lists m', owner, restored.lists, queue]
    congr 1
    · simp [graph, queue]
    · simp [graph, queue]
    · funext u
      by_cases same : u = t <;> simp [graph, same, restored.priority]

theorem Sound.release_exact (h : s.call (.release m) = some s') : s.Exact (.release m) s' := by
  obtain ⟨result, released, rfl⟩ := map_eq_some_iff.mp h
  obtain ⟨t, current, _⟩ := bind_eq_some_iff.mp released
  have restored : s.kernel.Reprioritised t (s.mutex m).originalPriority (s.restorePriority m t) :=
    sound.kernel.reprioritise sound.waiters t _ _ (fun _ => rfl) not_not.mp
  have condition (own : (s.mutex m).owner = some t) (last : (s.mutex m).hold = 1)
      (bounded : s.graph.Bounded) :
      (s.graph.release m t (s.mutex m).originalPriority.toNat).Bounded ↔
        s.KeepsBound (.release m) := by
    rw [bounded.release_iff (sound.waiters.current t current)]
    simp [KeepsBound, current, own, last]
  cases gave_of_mutexRelease current released with
  | foreign other =>
    obtain ⟨kernel, running, calm⟩ := sound.writeError t .error
    refine sound.exact_of_calm kernel running calm (fun _ => ⟨rfl, rfl⟩) ?_
    intro u isCurrent own
    rw [current] at isCurrent
    cases isCurrent
    exact absurd own other
  | kept own more =>
    have unchanged : s.kernel.Calm s.kernel :=
      (Kernel.Effect.same (c := .schedule) fun _ h => h).calm sound.waiters (by simp)
    refine sound.exact_of_calm sound.kernel sound.running unchanged (setMutex_same rfl rfl) ?_
    intro u _ _ one
    exact absurd one more
  | freed own last queue =>
    refine .of_graph (sound.set_free restored (restored.lists m ▸ queue) _ ?_) (condition own last)
    rfl
  | handed own last queue next =>
    refine .of_graph (sound.hand_over restored (restored.lists m ▸ queue) next _ ?_ ?_)
      (condition own last)
    · rfl
    · rfl

/-! ## Runs -/

/-- No explicit priority change. -/
def Call.Plain : Call → Prop
  | .thread (.changePriority _ _) => False
  | _ => True

theorem Sound.call_exact {c : Call} (plain : c.Plain) (h : s.call c = some s') : s.Exact c s' := by
  cases c with
  | thread c =>
    refine sound.thread_exact (fun t p isChange => ?_) h
    rw [isChange] at plain
    exact plain
  | take m time => exact sound.take_exact h
  | release m => exact sound.release_exact h

end

theorem sound_boot (thread : Tid → UInt8 × Bool) (flag : ℕ → IpcFlag) : (boot thread flag).Sound where
  kernel := (Kernel.sound_boot thread).1
  running := (Kernel.sound_boot thread).2
  waiters := ⟨by simp [boot, Kernel.boot], by simp [boot, Kernel.boot], by simp [boot, Kernel.boot],
    by simp [boot, Kernel.boot]⟩
  started := by simp [boot, Mutex.init]
  apart := by simp [boot, Mutex.init]
  free _ _ := rfl

/-- Without explicit priority changes, owners are as urgent as their waiters exactly if every call
meets the condition. -/
theorem bounded_iff_keepsBound (thread : Tid → UInt8 × Bool) (flag : ℕ → IpcFlag)
    (calls : List Call) (plain : ∀ c ∈ calls, c.Plain)
    (returns : run (lift Locks.call) (some (boot thread flag)) calls ≠ none) :
    Run.Along (lift Locks.call) (fun o c => ∀ s' ∈ lift Locks.call o c, s'.graph.Bounded)
        (some (boot thread flag)) calls ↔
      Run.Along (lift Locks.call) (fun o c => ∀ s ∈ o, s.KeepsBound c)
        (some (boot thread flag)) calls :=
  along_lift_iff (I := Sound) (P := fun s : Locks => s.graph.Bounded)
    (Q := KeepsBound) (A := Call.Plain)
    (fun _ _ _ isPlain sound called => sound.call_exact isPlain called) (sound_boot thread flag)
    (fun m o owns => by simp [graph, boot, Mutex.init] at owns) plain returns

/-- Priorities 255, 20 and 10. -/
def threeThreads (t : Tid) : UInt8 × Bool := (if t = 0 then 255 else if t = 1 then 20 else 10, true)

/-- A thread waits for a mutex of another. -/
def waitCalls : List Call :=
  [.thread (.startup 0), .thread (.startup 1), .thread .schedulerStart, .take 0 (-1),
    .thread (.startup 2), .take 0 (-1)]

/-- The owner waits for nobody, so that it can inherit the priority. -/
theorem bounded_iff_keepsBound_wait :
    Run.Along (lift Locks.call) (fun o c => ∀ s' ∈ lift Locks.call o c, s'.graph.Bounded)
      (some (boot threeThreads fun _ => .fifo)) waitCalls := by
  have returns : (run (lift Locks.call) (some (boot threeThreads fun _ => .fifo))
      waitCalls).isSome = true := by decide +kernel
  refine (bounded_iff_keepsBound threeThreads (fun _ => .fifo) waitCalls
    (by simp [waitCalls, Call.Plain]) (isSome_iff_ne_none.mp returns)).mpr ?_
  refine ⟨fun _ _ => trivial, fun _ _ => trivial, fun _ _ => trivial, ?_, fun _ _ => trivial, ?_,
    trivial⟩
  · rintro s isS t - o owns
    have free : (s.mutex 0).owner = none :=
      Option.some.inj (congrArg (Option.map fun s : Locks => (s.mutex 0).owner) isS).symm
    rw [free] at owns
    cases owns
  · rintro s isS t - o - - - - - m' waits
    have empty : s.kernel.list (.suspend m') = [] :=
      Option.some.inj (congrArg (Option.map fun s : Locks => s.kernel.list (.suspend m')) isS).symm
    simp [graph, empty] at waits

/-- Two mutexes are taken, the first is waited for, and the second released. -/
def nestedCalls : List Call :=
  [.thread (.startup 0), .thread (.startup 1), .thread .schedulerStart, .take 0 (-1), .take 1 (-1),
    .thread (.startup 2), .take 0 (-1), .release 1]

/-- Releasing the second mutex gives back the inherited priority while the first is waited for. -/
theorem inherited_priority_lost :
    ∃ s ∈ run (lift Locks.call) (some (boot threeThreads fun _ => .fifo)) nestedCalls,
      (s.mutex 0).owner = some 1 ∧ s.kernel.list (.suspend 0) = [2] ∧
        (s.kernel.thread 1).currentPriority = 20 ∧ (s.kernel.thread 2).currentPriority = 10 ∧
        ¬ s.graph.Bounded := by
  have state : (run (lift Locks.call) (some (boot threeThreads fun _ => .fifo))
      nestedCalls).map (fun s => ((s.mutex 0).owner, s.kernel.list (.suspend 0),
        (s.kernel.thread 1).currentPriority, (s.kernel.thread 2).currentPriority)) =
      some (some 1, [2], 20, 10) := by decide +kernel
  obtain ⟨s, reached, values⟩ := map_eq_some_iff.mp state
  simp only [Prod.mk.injEq] at values
  obtain ⟨owner, waiting, low, high⟩ := values
  refine ⟨s, reached, owner, waiting, low, high, fun bounded => ?_⟩
  have bound := bounded 0 1 owner 2 (by simp [graph, waiting])
  simp [graph, low, high] at bound

end Locks

end Tm4cPilot.Rtt
