import Tm4cPilot.Rtt.Inheritance

/-!
# Giving back an inherited priority

A mutex saves the priority of the thread that takes it, which gets it back when it gives the mutex
up.
-/

namespace Tm4cPilot.Rtt

open Run

namespace Kernel

variable {k k' : Kernel} {t : Tid}

/-- A call that at most gives a thread its initial priority. -/
def Ordinary (k k' : Kernel) : Prop :=
  ∀ u, (k'.thread u).initPriority = (k.thread u).initPriority ∧
    ((k'.thread u).currentPriority = (k.thread u).currentPriority ∨
      (k'.thread u).currentPriority = (k.thread u).initPriority)

theorem Ordinary.refl (k : Kernel) : k.Ordinary k := fun _ => ⟨rfl, Or.inl rfl⟩

section

variable (so : k.Ordinary k')
include so

theorem Ordinary.listRemove (t : Tid) : k.Ordinary (k'.listRemove t) := so

theorem Ordinary.of_thread {k'' : Kernel} (same : k''.thread = k'.thread) : k.Ordinary k'' := by
  intro u
  rw [same]
  exact so u

theorem Ordinary.modify (t : Tid) {f : Thread → Thread}
    (initial : (f (k'.thread t)).initPriority = (k'.thread t).initPriority)
    (current : (f (k'.thread t)).currentPriority = (k'.thread t).currentPriority ∨
      (f (k'.thread t)).currentPriority = (k'.thread t).initPriority) :
    k.Ordinary (k'.modify t f) := by
  intro u
  by_cases same : u = t
  · subst same
    obtain ⟨initial', current'⟩ := so u
    rw [thread_modify, Function.update_self, initial, initial']
    refine ⟨rfl, ?_⟩
    rcases current with kept | back
    · rw [kept]
      exact current'
    · exact Or.inr (back.trans initial')
  · simpa [same] using so u

theorem Ordinary.scheduleInsertThread (t : Tid) : k.Ordinary (k'.scheduleInsertThread t) :=
  (so.modify t (f := fun thread => { thread with stat := .ready }) rfl (Or.inl rfl)).of_thread rfl

theorem Ordinary.schedule {k'' : Kernel} (h : k'.schedule = some k'') : k.Ordinary k'' := by
  obtain ⟨_, _, _, _, rfl⟩ := schedule_eq h
  exact so.of_thread rfl

theorem Ordinary.threadSuspend (t : Tid) : k.Ordinary (k'.threadSuspend t).1 := by
  by_cases ready : (k'.thread t).stat = .ready
  · rw [threadSuspend_of_ready ready]
    exact (so.of_thread (by simp)).modify t rfl (Or.inl rfl)
  · rw [threadSuspend_of_not_ready ready]
    exact so

theorem Ordinary.threadResume (t : Tid) : k.Ordinary (k'.threadResume t).1 := by
  by_cases suspended : (k'.thread t).stat = .suspend
  · rw [threadResume_of_suspend suspended]
    exact ((so.listRemove t).modify t rfl (Or.inl rfl)).scheduleInsertThread t
  · rw [threadResume_of_not_suspend suspended]
    exact so

end

theorem ordinary_threadStartup (h : k.threadStartup t = some k') : k.Ordinary k' := by
  obtain ⟨_, pre, rfl, next⟩ := startup_eq h
  have resumed := ((Ordinary.refl k).modify t (f := fun thread =>
    { thread.withPriority thread.initPriority with stat := .suspend }) rfl (Or.inr rfl)).threadResume t
  obtain next | ⟨_, rfl⟩ := next
  · exact resumed.schedule next
  · exact resumed

theorem ordinary_timerExpires (h : k.timerExpires t = some k') : k.Ordinary k' := by
  unfold timerExpires at h
  split_ifs at h
  · unfold threadTimeout at h
    split_ifs at h
    have marked := ((Ordinary.refl k).modify t (f := fun thread => { thread with timer := false }) rfl
      (Or.inl rfl)).modify t (f := fun thread => { thread with error := .timeout }) rfl (Or.inl rfl)
    exact ((marked.listRemove t).scheduleInsertThread t).schedule h
  · exact Option.some.inj h ▸ Ordinary.refl k

theorem ordinary_threadExit (h : k.threadExit = some k') : k.Ordinary k' := by
  obtain ⟨t, _, h⟩ := Option.bind_eq_some_iff.mp h
  have closed : k.Ordinary ((k.scheduleRemoveThread t).modify t fun thread =>
      { thread with stat := .close, timer := false }) :=
    ((Ordinary.refl k).of_thread (by simp)).modify t rfl (Or.inl rfl)
  dsimp only at h
  split_ifs at h
  · exact closed.schedule h
  · have listed : k.Ordinary (((k.scheduleRemoveThread t).modify t fun thread =>
        { thread with stat := .close, timer := false }).listInsertAfter .defunct t) :=
      closed.of_thread rfl
    exact listed.schedule h

theorem call_ordinary {c : Call} (plain : ∀ t p, c ≠ .changePriority t p) (h : k.call c = some k') :
    k.Ordinary k' := by
  have start := Ordinary.refl k
  cases c with
  | schedulerStart =>
    obtain ⟨next, _, h⟩ := Option.bind_eq_some_iff.mp h
    exact Option.some.inj h ▸ start.of_thread rfl
  | startup t => exact ordinary_threadStartup h
  | suspend t => exact Option.some.inj h ▸ start.threadSuspend t
  | resume t => exact Option.some.inj h ▸ start.threadResume t
  | yield =>
    obtain ⟨t, _, h⟩ := Option.bind_eq_some_iff.mp h
    dsimp only at h
    split_ifs at h
    · have moved : k.Ordinary ((k.listRemove t).listInsertBefore
          (.ready (k.thread t).currentPriority) t) := start.of_thread rfl
      exact moved.schedule h
    · exact Option.some.inj h ▸ start
  | sleep =>
    obtain ⟨t, _, h⟩ := Option.bind_eq_some_iff.mp h
    exact ((start.threadSuspend t).modify t rfl (Or.inl rfl)).schedule h
  | sleepReturn =>
    obtain ⟨t, _, h⟩ := Option.bind_eq_some_iff.mp h
    rw [← Option.some.inj h]
    refine start.modify t ?_ (Or.inl ?_)
    · split_ifs <;> rfl
    · split_ifs <;> rfl
  | timeout t => exact ordinary_timerExpires h
  | changePriority t p => exact absurd rfl (plain t p)
  | exit => exact ordinary_threadExit h
  | schedule => exact start.schedule h

theorem initPriority_threadChangePriority (k : Kernel) (o : Tid) (p : UInt8) (u : Tid) :
    ((k.threadChangePriority o p).thread u).initPriority = (k.thread u).initPriority := by
  rw [thread_threadChangePriority]
  by_cases same : u = o <;> simp [same, Thread.withPriority]

theorem Ordinary.ipcListSuspend (so : k.Ordinary k') (m : ℕ) (t : Tid) (flag : IpcFlag) :
    k.Ordinary (k'.ipcListSuspend m t flag) := by
  cases flag with
  | fifo => exact (so.threadSuspend t).of_thread rfl
  | prio => exact (so.threadSuspend t).of_thread rfl

theorem ordinary_mutexWait (k : Kernel) (m : ℕ) (o t : Tid) (flag : IpcFlag) (time : ℤ) :
    ∃ k₁ : Kernel, (∀ u, (k₁.thread u).initPriority = (k.thread u).initPriority) ∧
      (∀ u, u ≠ o → k₁.thread u = k.thread u) ∧ k₁.Ordinary (k.mutexWait m o t flag time) := by
  refine ⟨if (k.thread t).currentPriority < (k.thread o).currentPriority
    then k.threadChangePriority o (k.thread t).currentPriority else k, fun u => ?_, fun u other => ?_,
    ?_⟩
  · split_ifs
    · exact initPriority_threadChangePriority k o _ u
    · rfl
  · split_ifs
    · simp [thread_threadChangePriority, other]
    · rfl
  · have suspended (k₁ : Kernel) := (Ordinary.refl k₁).ipcListSuspend m t flag
    unfold mutexWait
    by_cases limited : 0 < time
    · rw [if_pos limited]
      exact (suspended _).modify t rfl (Or.inl rfl)
    · rw [if_neg limited]
      exact suspended _

theorem currentPriority_threadResume (k : Kernel) (w u : Tid) :
    ((k.threadResume w).1.thread u).currentPriority = (k.thread u).currentPriority := by
  by_cases suspended : (k.thread w).stat = .suspend
  · rw [threadResume_of_suspend suspended]
    by_cases same : u = w <;> simp [same]
  · rw [threadResume_of_not_suspend suspended]

end Kernel

namespace Locks

variable {s s' : Locks} {m : ℕ} {t : Tid}

/-- Threads without mutexes have their initial priorities. -/
def Restored (s : Locks) : Prop :=
  ∀ t, (∀ m, (s.mutex m).owner ≠ some t) →
    (s.kernel.thread t).currentPriority = (s.kernel.thread t).initPriority

/-- The last mutex a thread gives up has saved its initial priority. -/
def GivesBack (s : Locks) : Call → Prop
  | .release m => ∀ t ∈ s.kernel.currentThread, (s.mutex m).owner = some t → (s.mutex m).hold = 1 →
      (∀ m', m' ≠ m → (s.mutex m').owner ≠ some t) →
      (s.mutex m).originalPriority = (s.kernel.thread t).initPriority
  | _ => True

section

variable (restored : s.Restored)
include restored

theorem Restored.of_owners
    (owners : ∀ m t, (s.mutex m).owner = some t → (s'.mutex m).owner = some t)
    (initial : ∀ t, (s'.kernel.thread t).initPriority = (s.kernel.thread t).initPriority)
    (priority : ∀ t, (∀ m, (s.mutex m).owner ≠ some t) →
      (s.kernel.thread t).currentPriority = (s.kernel.thread t).initPriority →
      (s'.kernel.thread t).currentPriority = (s.kernel.thread t).initPriority) :
    s'.Restored := by
  intro t free
  have was (m : ℕ) : (s.mutex m).owner ≠ some t := fun owns => free m (owners m t owns)
  rw [initial]
  exact priority t was (restored t was)

theorem Restored.thread {c : Kernel.Call} (plain : ∀ t p, c ≠ .changePriority t p)
    (h : s.call (.thread c) = some s') : s'.Restored := by
  obtain ⟨k, called, rfl⟩ := Option.map_eq_some_iff.mp h
  have ordinary := Kernel.call_ordinary plain called
  refine restored.of_owners (fun _ _ owns => owns) (fun t => (ordinary t).1) fun t _ back => ?_
  rcases (ordinary t).2 with same | initial
  · exact same.trans back
  · exact initial

theorem Restored.took (counted : s.Counted) {time : ℤ} {result : Locks × Option Err}
    (took : s.Took t m time result) : result.1.Restored := by
  have written (e : Err) (u : Tid) :
      ((s.writeError t e).thread u).initPriority = (s.kernel.thread u).initPriority ∧
        ((s.writeError t e).thread u).currentPriority = (s.kernel.thread u).currentPriority := by
    by_cases same : u = t <;> simp [same]
  cases took with
  | again own =>
    refine restored.of_owners (fun m' u owns => ?_) (fun u => (written .ok u).1) fun u _ back =>
      (written .ok u).2.trans back
    by_cases same : m' = m
    · simpa [setMutex, same] using same ▸ owns
    · simpa [setMutex, same] using owns
  | available other positive =>
    refine restored.of_owners (fun m' u owns => ?_) (fun u => (written .ok u).1) fun u _ back =>
      (written .ok u).2.trans back
    by_cases same : m' = m
    · rw [same, counted.owner_of_pos positive] at owns
      cases owns
    · simpa [setMutex, same] using owns
  | refused other taken instant =>
    exact restored.of_owners (fun _ _ owns => owns) (fun u => (written .timeout u).1) fun u _ back =>
      (written .timeout u).2.trans back
  | @waits o k owns other taken patient next =>
    obtain ⟨k₁, initial, same, ordinary⟩ :=
      (s.writeError t .ok).ordinary_mutexWait m o t (s.mutex m).flag time
    have switched := ordinary.schedule next
    refine restored.of_owners (fun _ _ owns => owns) (fun u => ?_) fun u free back => ?_
    · rw [(switched u).1, initial, (written .ok u).1]
    · have ne : u ≠ o := by
        rintro rfl
        exact free m owns
      have changed := (switched u).2
      rw [same u ne, (written .ok u).1, (written .ok u).2, back, or_self] at changed
      exact changed

theorem Restored.gaveUp_iff (own : (s.mutex m).owner = some t)
    (elsewhere : ∀ m', m' ≠ m → (s'.mutex m').owner = (s.mutex m').owner)
    (gone : (s'.mutex m).owner ≠ some t)
    (initial : ∀ u, (s'.kernel.thread u).initPriority = (s.kernel.thread u).initPriority)
    (priority : ∀ u, (s'.kernel.thread u).currentPriority =
      if u = t then (s.mutex m).originalPriority else (s.kernel.thread u).currentPriority) :
    s'.Restored ↔ ((∀ m', m' ≠ m → (s.mutex m').owner ≠ some t) →
      (s.mutex m).originalPriority = (s.kernel.thread t).initPriority) := by
  constructor
  · intro restored' noOther
    have free (m' : ℕ) : (s'.mutex m').owner ≠ some t := by
      by_cases same : m' = m
      · exact same ▸ gone
      · rw [elsewhere m' same]
        exact noOther m' same
    simpa [priority, initial] using restored' t free
  · intro condition u free
    rw [initial, priority]
    split_ifs with same
    · subst same
      exact condition fun m' ne => elsewhere m' ne ▸ free m'
    · refine restored u fun m' owns => ?_
      by_cases here : m' = m
      · rw [here, own] at owns
        exact same (Option.some.inj owns).symm
      · exact free m' ((elsewhere m' here).trans owns)

theorem Sound.gave_iff (sound : s.Sound) (current : s.kernel.currentThread = some t)
    {result : Locks × Err} (gave : s.Gave t m result) :
    result.1.Restored ↔ s.GivesBack (.release m) := by
  have initial (u : Tid) :
      ((s.restorePriority m t).thread u).initPriority = (s.kernel.thread u).initPriority := by
    unfold restorePriority
    split_ifs
    · exact Kernel.initPriority_threadChangePriority _ _ _ u
    · rfl
  have back : s.kernel.Reprioritised t (s.mutex m).originalPriority (s.restorePriority m t) :=
    sound.kernel.reprioritise sound.waiters t _ _ (fun _ => rfl) not_not.mp
  cases gave with
  | foreign other =>
    refine iff_of_true (restored.of_owners (fun _ _ owns => owns) (fun u => ?_) fun u _ back => ?_) ?_
    · by_cases same : u = t <;> simp [same]
    · rw [← back]
      by_cases same : u = t <;> simp [same]
    · intro u isCurrent own
      rw [current] at isCurrent
      exact absurd (own.trans isCurrent.symm) other
  | kept own more =>
    refine iff_of_true (restored.of_owners (fun m' u owns => ?_) (fun _ => rfl) fun _ _ back => back)
      fun _ _ _ last => absurd last more
    by_cases same : m' = m
    · simpa [setMutex, same] using same ▸ owns
    · simpa [setMutex, same] using owns
  | freed own last queue =>
    rw [restored.gaveUp_iff (t := t) own (fun m' ne => by simp [setMutex, ne]) (by simp [setMutex])
      initial back.priority]
    simp [GivesBack, current, own, last]
  | @handed w rest k own last queue next =>
    have waits : w ∈ s.kernel.list (.suspend m) := by
      rw [← back.lists m, queue]
      exact List.mem_cons_self
    have other : w ≠ t := by
      rintro rfl
      exact sound.waiters.current w current m waits
    have ordinary := ((Kernel.Ordinary.refl (s.restorePriority m t)).threadResume w).schedule next
    rw [restored.gaveUp_iff (t := t) own (fun m' ne => by simp [setMutex, ne])
      (by simpa [setMutex] using other) (fun u => (ordinary u).1.trans (initial u)) fun u => ?_]
    · simp [GivesBack, current, own, last]
    · rw [← back.priority]
      obtain ⟨_, _, _, _, rfl⟩ := Kernel.schedule_eq next
      exact Kernel.currentPriority_threadResume _ w u

theorem Sound.call_restored_iff (sound : s.Sound) (counted : s.Counted) {c : Call}
    (plain : c.Plain) (h : s.call c = some s') : s'.Restored ↔ s.GivesBack c := by
  cases c with
  | thread c =>
    refine iff_of_true (restored.thread (fun t p isChange => ?_) h) trivial
    rw [isChange] at plain
    exact plain
  | take m time =>
    obtain ⟨result, taken, rfl⟩ := Option.map_eq_some_iff.mp h
    obtain ⟨t, current, _⟩ := Option.bind_eq_some_iff.mp taken
    exact iff_of_true (restored.took counted (took_of_mutexTake current taken)) trivial
  | release m =>
    obtain ⟨result, released, rfl⟩ := Option.map_eq_some_iff.mp h
    obtain ⟨t, current, _⟩ := Option.bind_eq_some_iff.mp released
    exact sound.gave_iff restored current (gave_of_mutexRelease current released)

end

/-- Without explicit priority changes, threads without mutexes have their initial priorities exactly
if every call meets the condition. -/
theorem restored_iff_givesBack (thread : Tid → UInt8 × Bool) (flag : ℕ → IpcFlag)
    (calls : List Call) (plain : ∀ c ∈ calls, c.Plain)
    (returns : run (lift Locks.call) (some (boot thread flag)) calls ≠ none) :
    Run.Along (lift Locks.call) (fun o c => ∀ s' ∈ lift Locks.call o c, s'.Restored)
        (some (boot thread flag)) calls ↔
      Run.Along (lift Locks.call) (fun o c => ∀ s ∈ o, s.GivesBack c)
        (some (boot thread flag)) calls :=
  along_lift_iff (I := fun s : Locks => s.Sound ∧ s.Counted) (P := Restored) (Q := GivesBack)
    (A := Call.Plain)
    (fun _ _ _ isPlain invariant called =>
      ⟨⟨(invariant.1.call_exact isPlain called).1, invariant.2.call called⟩,
        fun restored => invariant.1.call_restored_iff restored invariant.2 isPlain called⟩)
    ⟨sound_boot thread flag, counted_boot thread flag⟩ (fun _ _ => rfl) plain returns

/-- A priority is inherited and given back. -/
def inheritCalls : List Call := waitCalls ++ [.release 0]

/-- The mutex was taken with the initial priority, which is given back. -/
theorem restored_iff_givesBack_inherit :
    Run.Along (lift Locks.call) (fun o c => ∀ s' ∈ lift Locks.call o c, s'.Restored)
      (some (boot threeThreads fun _ => .fifo)) inheritCalls := by
  have returns : (run (lift Locks.call) (some (boot threeThreads fun _ => .fifo))
      inheritCalls).isSome = true := by decide +kernel
  refine (restored_iff_givesBack threeThreads (fun _ => .fifo) inheritCalls
    (by simp [inheritCalls, waitCalls, Call.Plain]) (Option.isSome_iff_ne_none.mp returns)).mpr ?_
  refine ⟨fun _ _ => trivial, fun _ _ => trivial, fun _ _ => trivial, fun _ _ => trivial,
    fun _ _ => trivial, fun _ _ => trivial, ?_, trivial⟩
  rintro s isS t isCurrent - - -
  have values : some (s.kernel.currentThread, (s.mutex 0).originalPriority,
      (s.kernel.thread 1).initPriority) = some (some 1, 20, 20) :=
    (congrArg (Option.map fun s : Locks => (s.kernel.currentThread, (s.mutex 0).originalPriority,
      (s.kernel.thread 1).initPriority)) isS).symm
  simp only [Option.some.injEq, Prod.mk.injEq] at values
  obtain ⟨current, saved, initial⟩ := values
  obtain rfl : t = 1 := by simpa [current, eq_comm] using isCurrent
  rw [saved, initial]

/-- A thread takes a mutex, inherits a priority, takes a second mutex, and releases both. -/
def crossedCalls : List Call :=
  [.thread (.startup 0), .thread (.startup 1), .thread .schedulerStart, .take 0 (-1),
    .thread (.startup 2), .take 0 (-1), .take 1 (-1), .release 0, .release 0, .thread .sleep,
    .release 1]

/-- The second mutex saved the inherited priority, which the thread keeps. -/
theorem inherited_priority_kept :
    (∀ c ∈ crossedCalls, c.Plain) ∧
    ∃ s ∈ run (lift Locks.call) (some (boot threeThreads fun _ => .fifo)) crossedCalls,
      (∀ m, (s.mutex m).owner = none) ∧ (s.kernel.thread 1).initPriority = 20 ∧
        (s.kernel.thread 1).currentPriority = 10 ∧ ¬ s.Restored := by
  refine ⟨by simp [crossedCalls, Call.Plain], ?_⟩
  have state : (run (lift Locks.call) (some (boot threeThreads fun _ => .fifo))
      crossedCalls).map (fun s => ((s.mutex 0).owner, (s.mutex 1).owner,
        (s.kernel.thread 1).initPriority, (s.kernel.thread 1).currentPriority)) =
      some (none, none, 20, 10) := by decide +kernel
  obtain ⟨s, reached, values⟩ := Option.map_eq_some_iff.mp state
  simp only [Prod.mk.injEq] at values
  obtain ⟨first, second, initial, current⟩ := values
  have free (m : ℕ) : (s.mutex m).owner = none := by
    rcases m with _ | _ | m
    · exact first
    · exact second
    · have untouched : (run (lift Locks.call) (some (boot threeThreads fun _ => .fifo))
          crossedCalls).map (fun s => (s.mutex (m + 2)).owner) = some none := rfl
      rw [reached] at untouched
      exact Option.some.inj untouched
  refine ⟨s, reached, free, initial, current, fun restored => ?_⟩
  have back := restored 1 (by simp [free])
  simp [initial, current] at back

end Locks

end Tm4cPilot.Rtt
