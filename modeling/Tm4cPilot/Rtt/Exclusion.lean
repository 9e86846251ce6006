import Tm4cPilot.Rtt.Ipc

/-!
# Mutual exclusion

Threads take and release mutexes in any interleaving.  A ledger counts what each took and released,
and which are in the middle of `rt_mutex_take`.
-/

namespace Tm4cPilot.Rtt

open Option Locks Function Run Nat UInt8

namespace Kernel

variable {k k' : Kernel} {t : Tid}

theorem error_threadSuspend (k : Kernel) (t u : Tid) :
    ((k.threadSuspend t).1.thread u).error = (k.thread u).error := by
  by_cases ready : (k.thread t).stat = .ready
  · rw [threadSuspend_of_ready ready]
    by_cases same : u = t <;> simp [same]
  · rw [threadSuspend_of_not_ready ready]

theorem error_threadChangePriority (k : Kernel) (o : Tid) (p : UInt8) (u : Tid) :
    ((k.threadChangePriority o p).thread u).error = (k.thread u).error := by
  rw [thread_threadChangePriority]
  by_cases same : u = o <;> simp [same, Thread.withPriority]

theorem error_ipcListSuspend (k : Kernel) (m : ℕ) (t u : Tid) (flag : IpcFlag) :
    ((k.ipcListSuspend m t flag).thread u).error = (k.thread u).error := by
  cases flag with
  | fifo => exact k.error_threadSuspend t u
  | prio => exact k.error_threadSuspend t u

theorem error_mutexWait (k : Kernel) (m : ℕ) (o t u : Tid) (flag : IpcFlag) (time : ℤ) :
    ((k.mutexWait m o t flag time).thread u).error = (k.thread u).error := by
  have inherits : ((if (k.thread t).currentPriority < (k.thread o).currentPriority
      then k.threadChangePriority o (k.thread t).currentPriority else k).thread u).error =
      (k.thread u).error := by
    split_ifs
    · exact k.error_threadChangePriority o _ u
    · rfl
  have suspended := (error_ipcListSuspend _ m t u flag).trans inherits
  unfold mutexWait
  by_cases limited : 0 < time
  · rw [if_pos limited, ← suspended]
    by_cases same : u = t <;> simp [same]
  · rw [if_neg limited]
    exact suspended

theorem threadStartup_eq (h : k.threadStartup t = some k') :
    (k.thread t).stat = .init ∧
      (∀ u, (k'.thread u).stat = (if u = t then .ready else (k.thread u).stat) ∧
        (k'.thread u).error = (k.thread u).error) ∧
      ∀ m, k'.list (.suspend m) = (k.list (.suspend m)).erase t := by
  obtain ⟨initial, pre, isPre, next⟩ := startup_eq h
  have linked : (∀ u, (pre.thread u).stat = (if u = t then .ready else (k.thread u).stat) ∧
      (pre.thread u).error = (k.thread u).error) ∧
      ∀ m, pre.list (.suspend m) = (k.list (.suspend m)).erase t := by
    rw [isPre, threadResume_of_suspend (by simp)]
    refine ⟨fun u => ?_, fun m => by simp⟩
    by_cases same : u = t <;> simp [same, Thread.withPriority]
  refine ⟨initial, ?_⟩
  obtain next | ⟨_, rfl⟩ := next
  · obtain ⟨_, _, _, _, rfl⟩ := schedule_eq next
    exact linked
  · exact linked

theorem timerExpires_eq (h : k.timerExpires t = some k') :
    k' = k ∨ (k.thread t).stat = .suspend ∧ k.Wakes t .timeout k' := by
  by_cases active : (k.thread t).timer = true
  · by_cases suspended : (k.thread t).stat = .suspend
    · obtain ⟨k₁, expired⟩ : ∃ k₁, k.expires t = some k₁ := ⟨_, if_pos ⟨active, suspended⟩⟩
      obtain ⟨-, wakes⟩ := wakes_expires expired
      rw [timerExpires_of_expires expired] at h
      obtain ⟨_, _, _, _, rfl⟩ := schedule_eq h
      exact Or.inr ⟨suspended, wakes.stat, wakes.error, wakes.list⟩
    · simp [timerExpires, active, threadTimeout, suspended] at h
  · rw [timerExpires, if_neg active] at h
    exact Or.inl (some.inj h).symm

end Kernel

/-! ## Interleavings -/

/-- The locks, what was taken and released, and the mutex a thread is taking, with whether it is
handed over. -/
structure Ledger where
  locks : Locks
  takes : Tid → ℕ → ℕ
  releases : Tid → ℕ → ℕ
  taking : Tid → Option (ℕ × Bool)

/-- One more for a thread and a mutex. -/
def increment (count : Tid → ℕ → ℕ) (t : Tid) (m : ℕ) : Tid → ℕ → ℕ :=
  fun u m' => if u = t ∧ m' = m then count u m' + 1 else count u m'

/-- What can happen. The current thread makes the calls. -/
inductive Ledger.Event where
  | startup (t : Tid)
  | schedulerStart
  | run (t : Tid)
  | timeout (t : Tid)
  | take (m : ℕ) (time : ℤ)
  | takeReturn
  | release (m : ℕ)
  deriving DecidableEq, Repr

namespace Ledger

variable (l : Ledger)

/-- A call of the scheduler. -/
def kernelCall (c : Kernel.Call) : Option Ledger :=
  (l.locks.call (.thread c)).map fun locks => { l with locks }

/-- The current thread, outside of a call. -/
def caller : Option Tid := do
  let t ← l.locks.kernel.currentThread
  if l.taking t = none then return t else none

/-- A take is counted when it returns, or when the mutex is handed over. -/
def step : Event → Option Ledger
  | .startup t => l.kernelCall (.startup t)
  | .schedulerStart => l.kernelCall .schedulerStart
  | .run t =>
    if (l.locks.kernel.thread t).stat = .ready then
      some { l with locks := ⟨{ l.locks.kernel with
        currentThread := some t
        currentPriority := (l.locks.kernel.thread t).currentPriority }, l.locks.mutex⟩ }
    else none
  | .timeout t => l.kernelCall (.timeout t)
  | .take m time => do
    let t ← l.caller
    let result ← l.locks.mutexTake m time
    match result.2 with
    | none => return { l with
        locks := result.1, taking := update l.taking t (some (m, false)) }
    | some .ok => return { l with locks := result.1, takes := increment l.takes t m }
    | some _ => return { l with locks := result.1 }
  | .takeReturn => do
    let t ← l.locks.kernel.currentThread
    if l.taking t = none then none else return { l with taking := update l.taking t none }
  | .release m => do
    let t ← l.caller
    let result ← l.locks.mutexRelease m
    if result.2 = .ok then
      let releases := increment l.releases t m
      match (result.1.mutex m).owner with
      | none => return { l with locks := result.1, releases }
      | some w =>
        if w = t then return { l with locks := result.1, releases }
        else return { l with
          locks := result.1
          releases
          takes := increment l.takes w m
          taking := update l.taking w (some (m, true)) }
    else return { l with locks := result.1 }

/-- No mutex is taken. -/
def start (thread : Tid → UInt8 × Bool) (flag : ℕ → IpcFlag) : Ledger where
  locks := Locks.boot thread flag
  takes _ _ := 0
  releases _ _ := 0
  taking _ := none

/-- A thread holds a mutex. -/
def Holds (t : Tid) (m : ℕ) : Prop := l.releases t m < l.takes t m

/-- At most 255 nested takes. -/
def Shallow : Event → Prop
  | .take m _ => ∀ t ∈ l.locks.kernel.currentThread, (l.locks.mutex m).owner = some t →
      (l.locks.mutex m).hold < 255
  | _ => True

instance (e : Event) : Decidable (l.Shallow e) := by
  cases e <;> unfold Shallow <;> infer_instance

/-- Mutual exclusion. -/
structure Exclusive : Prop where
  /-- At most one thread holds the mutex. -/
  one : ∀ m t u, l.Holds t m → l.Holds u m → t = u
  /-- It is the owner, and the hold count is what it has still to release. -/
  owner : ∀ m t, l.Holds t m → (l.locks.mutex m).owner = some t ∧
    (l.locks.mutex m).hold.toNat = l.takes t m - l.releases t m
  /-- No thread released more than it took. -/
  balance : ∀ m t, l.releases t m ≤ l.takes t m
  value : ∀ m, (l.locks.mutex m).value = 1 ↔ ∀ t, ¬ l.Holds t m
  /-- A release by another thread fails, and changes nothing but the error number of that thread. -/
  foreign : ∀ m t, l.locks.kernel.currentThread = some t → ¬ l.Holds t m →
    l.locks.mutexRelease m = some (⟨l.locks.writeError t .error, l.locks.mutex⟩, .error)
  /-- Nobody waits for a free mutex. -/
  free : ∀ m, (∀ t, ¬ l.Holds t m) → l.locks.kernel.list (.suspend m) = []
  /-- A take that had to wait returns success exactly if the mutex was handed over. -/
  returns : ∀ t m handed, l.locks.kernel.currentThread = some t → l.taking t = some (m, handed) →
    (l.locks.mutexTakeReturn t = .ok ↔ handed = true)

/-- What was taken and released of a mutex, its owner and hold count. -/
structure Tally (mutex : Mutex) (takes releases : Tid → ℕ) : Prop where
  hold : mutex.hold = 0 ↔ mutex.owner = none
  count : ∀ t, takes t = releases t + if mutex.owner = some t then mutex.hold.toNat else 0

variable {mutex mutex' : Mutex} {takes releases takes' releases' : Tid → ℕ} {t w : Tid}

theorem Tally.again (tally : Tally mutex takes releases) (own : mutex.owner = some t)
    (shallow : mutex.hold < 255) :
    Tally { mutex with hold := mutex.hold + 1 } (fun u => if u = t then takes u + 1 else takes u)
      releases := by
  have next : (mutex.hold + 1).toNat = mutex.hold.toNat + 1 := by
    have bound : mutex.hold.toNat < 255 := lt_iff_toNat_lt.mp shallow
    exact mod_eq_of_lt (show mutex.hold.toNat + 1 < 256 by omega)
  refine ⟨iff_of_false (fun zero => ?_) (by simp [own]), fun u => ?_⟩
  · have := congrArg toNat zero
    rw [next] at this
    exact absurd this (succ_ne_zero _)
  · have count := tally.count u
    by_cases same : u = t
    · subst same
      simp [own, next, count, add_assoc]
    · simp [own, same, count, Ne.symm same]

theorem Tally.give (balance : ∀ u, takes u = releases u) (owner : mutex'.owner = some t)
    (hold : mutex'.hold = 1) :
    Tally mutex' (fun u => if u = t then takes u + 1 else takes u) releases := by
  refine ⟨by simp [owner, hold], fun u => ?_⟩
  by_cases same : u = t
  · simp [same, owner, hold, balance]
  · simp [same, owner, balance, Ne.symm same]

theorem Tally.balance (tally : Tally mutex takes releases) (free : mutex.owner = none) (u : Tid) :
    takes u = releases u := by
  simpa [free] using tally.count u

theorem Tally.settle (tally : Tally mutex takes releases) (own : mutex.owner = some t)
    (last : mutex.hold = 1) (u : Tid) : takes u = if u = t then releases u + 1 else releases u := by
  have count := tally.count u
  by_cases same : u = t
  · subst same
    simpa [own, last] using count
  · simpa [own, same, Ne.symm same] using count

theorem Tally.kept (tally : Tally mutex takes releases) (own : mutex.owner = some t)
    (more : mutex.hold ≠ 1) : Tally { mutex with hold := mutex.hold - 1 } takes
      (fun u => if u = t then releases u + 1 else releases u) := by
  have held : mutex.hold ≠ 0 := fun zero => by
    rw [tally.hold.mp zero] at own
    cases own
  have positive : 1 ≤ mutex.hold.toNat := by
    rw [one_le_iff_ne_zero]
    exact fun zero => held (UInt8.toNat_inj.mp zero)
  have previous : (mutex.hold - 1).toNat + 1 = mutex.hold.toNat := by
    have one : (1 : UInt8) ≤ mutex.hold := le_iff_toNat_le.mpr (by simpa using positive)
    rw [UInt8.toNat_sub_of_le _ _ one]
    exact Nat.sub_add_cancel positive
  refine ⟨iff_of_false (fun zero => more ?_) (by simp [own]), fun u => ?_⟩
  · rw [← UInt8.sub_add_cancel mutex.hold 1, show mutex.hold - 1 = 0 from zero]
    rfl
  · have count := tally.count u
    by_cases same : u = t
    · subst same
      simp [own, count, ← previous]
      omega
    · simp [own, same, count, Ne.symm same]

/-! ## The steps -/

/-- What every step keeps. -/
structure Valid (l : Ledger) : Prop where
  sound : l.locks.Sound
  counted : l.locks.Counted
  tally : ∀ m, Tally (l.locks.mutex m) (l.takes · m) (l.releases · m)
  waiting : Waiting l.locks.kernel l.taking

variable {l l' : Ledger} {m : ℕ}

theorem Valid.kernelCall (valid : l.Valid) {c : Kernel.Call} (plain : ∀ t p, c ≠ .changePriority t p)
    (h : l.kernelCall c = some l')
    (waiting : ∀ k, l.locks.kernel.call c = some k → Waiting k l.taking) : l'.Valid := by
  obtain ⟨locks, called, rfl⟩ := map_eq_some_iff.mp h
  obtain ⟨k, calledKernel, rfl⟩ := map_eq_some_iff.mp called
  exact ⟨(valid.sound.thread_exact plain called).1, valid.counted, valid.tally, waiting k calledKernel⟩

theorem Valid.startup (valid : l.Valid) (h : l.kernelCall (.startup t) = some l') : l'.Valid := by
  refine valid.kernelCall (by simp) h fun k called => ?_
  obtain ⟨initial, threads, lists⟩ := Kernel.threadStartup_eq called
  -- a thread that is not started is not in the middle of a take
  have unlinked (m : ℕ) : t ∉ l.locks.kernel.list (.suspend m) := by
    intro inList
    rw [valid.sound.waiters.suspended m t inList] at initial
    cases initial
  refine valid.waiting.of_same (fun m => ?_) fun u inCall => ?_
  · rw [lists, List.erase_of_not_mem (unlinked m)]
  · have other : u ≠ t := by
      rintro rfl
      obtain ⟨⟨m, handed⟩, isCall⟩ := ne_none_iff_exists'.mp inCall
      rw [(valid.waiting.resumed u m handed isCall (unlinked m)).1] at initial
      cases initial
    rw [(threads u).1, (threads u).2, if_neg other]
    exact ⟨rfl, rfl⟩

theorem Valid.schedulerStart (valid : l.Valid) (h : l.kernelCall .schedulerStart = some l') :
    l'.Valid := by
  refine valid.kernelCall (by simp) h fun k called => ?_
  obtain ⟨next, _, called⟩ := bind_eq_some_iff.mp called
  cases some.inj called
  exact valid.waiting.of_same (fun _ => rfl) fun _ _ => ⟨rfl, rfl⟩

theorem Valid.timeout (valid : l.Valid) (h : l.kernelCall (.timeout t) = some l') : l'.Valid := by
  refine valid.kernelCall (by simp) h fun k called => ?_
  rcases Kernel.timerExpires_eq called with rfl | ⟨suspended, wakes⟩
  · exact valid.waiting
  · exact valid.waiting.expire valid.sound.waiters.parked suspended wakes

theorem Valid.run (valid : l.Valid) (h : l.step (.run t) = some l') : l'.Valid := by
  rw [step] at h
  split_ifs at h with ready
  cases some.inj h
  have sound := valid.sound
  refine ⟨⟨⟨sound.kernel.queues.of_perm rfl rfl fun _ => .refl _, sound.kernel.attributes,
    sound.kernel.timer⟩, ?_, sound.waiters.mono (fun _ => .refl _) (fun _ _ _ => rfl) ?_,
    sound.started, sound.apart, sound.free⟩, valid.counted, valid.tally,
    valid.waiting.of_same (fun _ => rfl) fun _ _ => ⟨rfl, rfl⟩⟩
  · rintro u isCurrent
    obtain rfl : t = u := by simpa using isCurrent
    exact Or.inl ready
  · rintro u isCurrent
    obtain rfl : t = u := by simpa using isCurrent
    exact Or.inr ready

theorem tally_set {s : Locks} {k : Kernel} {mutex : Mutex} {takes releases takes' releases' : Tid → ℕ → ℕ}
    (tally : ∀ m, Tally (s.mutex m) (takes · m) (releases · m))
    (here : Tally mutex (takes' · m) (releases' · m))
    (elsewhere : ∀ m', m' ≠ m → (takes' · m') = (takes · m') ∧ (releases' · m') = (releases · m'))
    (m' : ℕ) : Tally ((setMutex ⟨k, s.mutex⟩ m mutex).mutex m') (takes' · m')
      (releases' · m') := by
  by_cases same : m' = m
  · subst same
    simpa [setMutex] using here
  · rw [(elsewhere m' same).1, (elsewhere m' same).2]
    simpa [setMutex, same] using tally m'

theorem increment_here (count : Tid → ℕ → ℕ) (t : Tid) (m : ℕ) :
    (increment count t m · m) = fun u => if u = t then count u m + 1 else count u m := by
  funext u
  simp [increment]

theorem increment_elsewhere (count : Tid → ℕ → ℕ) (t : Tid) {m m' : ℕ} (ne : m' ≠ m) :
    (increment count t m · m') = (count · m') := by
  funext u
  simp [increment, ne]

theorem caller_eq (h : l.caller = some t) :
    l.locks.kernel.currentThread = some t ∧ l.taking t = none := by
  obtain ⟨u, current, h⟩ := bind_eq_some_iff.mp h
  split_ifs at h with outside
  cases some.inj h
  exact ⟨current, outside⟩

theorem waiting_writeError {s : Locks} {taking : Tid → Option (ℕ × Bool)}
    (waiting : Waiting s.kernel taking) (outside : taking t = none) (e : Err) :
    Waiting (s.writeError t e) taking := by
  refine waiting.of_same (fun _ => rfl) fun u inCall => ?_
  have other : u ≠ t := by
    rintro rfl
    exact inCall outside
  simp [other]

theorem Valid.take (valid : l.Valid) {time : ℤ} (shallow : l.Shallow (.take m time))
    (h : l.step (.take m time) = some l') : l'.Valid := by
  obtain ⟨t, isCaller, h⟩ := bind_eq_some_iff.mp h
  obtain ⟨result, taken, h⟩ := bind_eq_some_iff.mp h
  obtain ⟨current, outside⟩ := caller_eq isCaller
  have took := took_of_mutexTake current taken
  have called : l.locks.call (.take m time) = some result.1 := by simp [call, taken]
  have sound : result.1.Sound := (valid.sound.take_exact called).1
  have counted := valid.counted.took took
  cases took with
  | again own =>
    cases some.inj h
    refine ⟨sound, counted, tally_set valid.tally ?_ fun m' ne => ⟨increment_elsewhere _ t ne, rfl⟩,
      waiting_writeError valid.waiting outside .ok⟩
    rw [increment_here]
    exact (valid.tally m).again own (shallow t current own)
  | available other positive =>
    cases some.inj h
    have free := valid.counted.owner_of_pos positive
    refine ⟨sound, counted, tally_set valid.tally ?_ fun m' ne => ⟨increment_elsewhere _ t ne, rfl⟩,
      waiting_writeError valid.waiting outside .ok⟩
    rw [increment_here]
    refine .give ((valid.tally m).balance free) rfl ?_
    rw [(valid.tally m).hold.mpr free]
    rfl
  | refused other taken instant =>
    cases some.inj h
    exact ⟨sound, counted, valid.tally, waiting_writeError valid.waiting outside .timeout⟩
  | @waits o k owns other taken patient next =>
    cases some.inj h
    refine ⟨sound, counted, valid.tally, ?_⟩
    obtain ⟨kernel, running, calm⟩ := valid.sound.writeError t .ok
    have waits := kernel.mutexWait calm.waiters (running t current)
      (calm.waiters.current t current) m o (l.locks.mutex m).flag time
    have errors (u : Tid) := (l.locks.writeError t .ok).error_mutexWait m o t u (l.locks.mutex m).flag
      time
    have parks : l.locks.kernel.Parks m t
        ((l.locks.writeError t .ok).mutexWait m o t (l.locks.mutex m).flag time) := by
      refine ⟨fun u => ?_, fun u => ?_, waits.mem_iff, fun m' => ?_⟩
      · rw [waits.stat]
        by_cases same : u = t <;> simp [same]
      · rw [errors]
        by_cases same : u = t <;> simp [same]
      · by_cases same : m' = m
        · exact same ▸ waits.nodup
        · exact waits.other m' same ▸ valid.sound.waiters.nodup m'
    obtain ⟨_, _, _, _, rfl⟩ := Kernel.schedule_eq next
    exact valid.waiting.park outside ⟨parks.stat, parks.error, parks.mem, parks.nodup⟩

theorem Valid.release (valid : l.Valid) (h : l.step (.release m) = some l') : l'.Valid := by
  obtain ⟨t, isCaller, h⟩ := bind_eq_some_iff.mp h
  obtain ⟨result, released, h⟩ := bind_eq_some_iff.mp h
  obtain ⟨current, outside⟩ := caller_eq isCaller
  have gave := gave_of_mutexRelease current released
  have sound : result.1.Sound :=
    (valid.sound.release_exact (m := m) (by simp [call, released])).1
  have counted := valid.counted.gave gave
  have restored : l.locks.kernel.Reprioritised t (l.locks.mutex m).originalPriority
      (l.locks.restorePriority m t) :=
    valid.sound.kernel.reprioritise valid.sound.waiters t _ _ (fun _ => rfl) not_not.mp
  have errors (u : Tid) :
      ((l.locks.restorePriority m t).thread u).error = (l.locks.kernel.thread u).error := by
    unfold restorePriority
    split_ifs
    · exact Kernel.error_threadChangePriority _ _ _ u
    · rfl
  have waiting : Waiting (l.locks.restorePriority m t) l.taking :=
    valid.waiting.of_same restored.lists fun u _ => ⟨restored.stat u, errors u⟩
  cases gave with
  | foreign other =>
    cases some.inj h
    exact ⟨sound, counted, valid.tally, waiting_writeError valid.waiting outside .error⟩
  | kept own more =>
    have still : ((l.locks.setMutex m { l.locks.mutex m with
        hold := (l.locks.mutex m).hold - 1 }).mutex m).owner = some t := by
      simpa [setMutex] using own
    simp only [if_true, still, pure_def, some.injEq] at h
    cases h
    refine ⟨sound, counted, tally_set valid.tally ?_ fun m' ne => ⟨rfl, increment_elsewhere _ t ne⟩,
      valid.waiting⟩
    rw [increment_here]
    exact (valid.tally m).kept own more
  | freed own last queue =>
    simp only [if_true, setMutex, update_self, pure_def, some.injEq] at h
    cases h
    refine ⟨sound, counted, tally_set valid.tally ?_ fun m' ne => ⟨rfl, increment_elsewhere _ t ne⟩,
      waiting⟩
    rw [increment_here]
    exact ⟨by simp, fun u => by simpa using (valid.tally m).settle own last u⟩
  | @handed w rest k own last queue next =>
    have inList : w ∈ l.locks.kernel.list (.suspend m) := by
      rw [← restored.lists m, queue]
      exact List.mem_cons_self
    have other : w ≠ t := by
      rintro rfl
      exact valid.sound.waiters.current w current m inList
    simp only [if_true, setMutex, update_self, other, if_false, pure_def, some.injEq] at h
    cases h
    refine ⟨sound, counted, tally_set valid.tally ?_ fun m' ne =>
      ⟨increment_elsewhere _ w ne, increment_elsewhere _ t ne⟩, ?_⟩
    · rw [increment_here, increment_here]
      exact .give ((valid.tally m).settle own last) rfl rfl
    · have suspended : ((l.locks.restorePriority m t).thread w).stat = .suspend :=
        (restored.stat w).trans (valid.sound.waiters.suspended m w inList)
      obtain ⟨stat, error, list⟩ := Kernel.wakes_threadResume suspended
      obtain ⟨_, _, _, _, rfl⟩ := Kernel.schedule_eq next
      exact waiting.serve restored.waiters.parked (by rw [queue]; exact List.mem_cons_self)
        ⟨stat, error, list⟩

theorem Valid.takeReturn (valid : l.Valid) (h : l.step .takeReturn = some l') : l'.Valid := by
  obtain ⟨t, current, h⟩ := bind_eq_some_iff.mp h
  split_ifs at h
  cases some.inj h
  exact ⟨valid.sound, valid.counted, valid.tally,
    valid.waiting.leave (valid.sound.waiters.current t current)⟩

theorem Valid.step (valid : l.Valid) {e : Event} (shallow : l.Shallow e) (h : l.step e = some l') :
    l'.Valid := by
  cases e with
  | startup t => exact valid.startup h
  | schedulerStart => exact valid.schedulerStart h
  | run t => exact valid.run h
  | timeout t => exact valid.timeout h
  | take m time => exact valid.take shallow h
  | takeReturn => exact valid.takeReturn h
  | release m => exact valid.release h

theorem valid_start (thread : Tid → UInt8 × Bool) (flag : ℕ → IpcFlag) : (start thread flag).Valid where
  sound := sound_boot thread flag
  counted := counted_boot thread flag
  tally _ := ⟨by simp [start, boot, Mutex.init], by simp [start, boot, Mutex.init]⟩
  waiting := ⟨by simp [start, boot, Kernel.boot], by simp [start]⟩

/-! ## Exclusion -/

theorem Valid.holds_iff (valid : l.Valid) : l.Holds t m ↔ (l.locks.mutex m).owner = some t := by
  have count := (valid.tally m).count t
  constructor
  · intro holds
    by_contra other
    rw [if_neg other] at count
    exact absurd holds (by rw [Holds, count]; simp)
  · intro own
    rw [if_pos own] at count
    have held : (l.locks.mutex m).hold ≠ 0 := fun zero => by
      rw [(valid.tally m).hold.mp zero] at own
      cases own
    have positive : (l.locks.mutex m).hold.toNat ≠ 0 := fun zero => held (UInt8.toNat_inj.mp zero)
    rw [Holds, count]
    omega

theorem Valid.free_iff (valid : l.Valid) : (∀ t, ¬ l.Holds t m) ↔ (l.locks.mutex m).owner = none := by
  simp only [valid.holds_iff]
  exact eq_none_iff_forall_ne_some.symm

theorem Valid.exclusive (valid : l.Valid) : l.Exclusive := by
  refine ⟨fun m t u first second => ?_, fun m t holds => ?_, fun m t => ?_, fun m => ?_,
    fun m t current other => ?_, fun m free => ?_, fun t m handed current inCall => ?_⟩
  · rw [valid.holds_iff] at first second
    exact some.inj (first.symm.trans second)
  · have own := valid.holds_iff.mp holds
    have count := (valid.tally m).count t
    rw [if_pos own] at count
    exact ⟨own, (Nat.sub_eq_of_eq_add' count).symm⟩
  · have count := (valid.tally m).count t
    rw [count]
    exact le_add_right _ _
  · rw [valid.free_iff, valid.counted m]
    split_ifs with free
    · simp [free]
    · simp [free]
  · have foreign : (l.locks.mutex m).owner ≠ some t := mt valid.holds_iff.mpr other
    simp [mutexRelease, current, foreign]
  · refine valid.sound.free m ?_
    rw [valid.counted m, if_pos (valid.free_iff.mp free)]
    decide
  · exact (valid.waiting.resumed t m handed inCall (valid.sound.waiters.current t current m)).2

/-- With at most 255 nested takes, the mutexes are held by one thread at a time in every
interleaving. -/
theorem exclusive_of_shallow (thread : Tid → UInt8 × Bool) (flag : ℕ → IpcFlag) (events : List Event)
    (shallow : Run.Along (lift step) (fun o e => ∀ l ∈ o, l.Shallow e)
      (some (start thread flag)) events) :
    ∀ l ∈ run (lift step) (some (start thread flag)) events, l.Exclusive := by
  have valid : ∀ l ∈ run (lift step) (some (start thread flag)) events, l.Valid := by
    refine shallow.invariant (I := fun o : Option Ledger => ∀ l ∈ o, l.Valid) ?_ ?_
    · intro o e isShallow valid l' reached
      obtain ⟨l, isL, stepped⟩ := bind_eq_some_iff.mp reached
      exact (valid l isL).step (isShallow l isL) stepped
    · rintro _ ⟨⟩
      exact valid_start thread flag
  exact fun l reached => (valid l reached).exclusive

/-- Taken twice, waited for by two, of which one gives up, and handed over. -/
def handOverEvents : List Event :=
  [.startup 0, .startup 1, .startup 2, .startup 3, .schedulerStart, .run 1, .take 0 (-1), .take 0 0,
    .run 3, .take 0 5, .run 2, .take 0 (-1), .timeout 3, .run 1, .release 0, .release 0, .run 3,
    .takeReturn, .run 2, .takeReturn]

theorem exclusive_of_shallow_handOver :
    Run.Along (lift step) (fun o e => ∀ l ∈ o, l.Shallow e)
      (some (start Locks.threeThreads fun _ => .prio)) handOverEvents ∧
    ∃ l ∈ run (lift step) (some (start Locks.threeThreads fun _ => .prio)) handOverEvents,
      l.Exclusive ∧ l.Holds 2 0 := by
  have shallow : Run.Along (lift step) (fun o e => ∀ l ∈ o, l.Shallow e)
      (some (start Locks.threeThreads fun _ => .prio)) handOverEvents := by decide +kernel
  have state : (run (lift step) (some (start Locks.threeThreads fun _ => .prio))
      handOverEvents).map (fun l => (l.takes 2 0, l.releases 2 0)) = some (1, 0) := by decide +kernel
  obtain ⟨l, reached, counts⟩ := map_eq_some_iff.mp state
  simp only [Prod.mk.injEq] at counts
  exact ⟨shallow, l, reached, exclusive_of_shallow _ _ _ shallow l reached,
    by rw [Holds, counts.1, counts.2]; exact one_pos⟩

end Ledger

end Tm4cPilot.Rtt
