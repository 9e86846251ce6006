import Tm4cPilot.Rtt.Scheduler

/-!
# RT-Thread mutexes

`rt_mutex_take` and `rt_mutex_release` of `ipc.c`.  What a waiting thread returns is decided when it
runs again.
-/

namespace Tm4cPilot.Rtt

open Option

/-- `RT_IPC_FLAG_FIFO` and `RT_IPC_FLAG_PRIO`. -/
inductive IpcFlag where
  | fifo
  | prio
  deriving DecidableEq, Repr

/-- `struct rt_mutex`; the kernel has its suspend list. -/
structure Mutex where
  value : UInt16
  originalPriority : UInt8
  hold : UInt8
  owner : Option Tid
  flag : IpcFlag
  deriving DecidableEq, Repr

def Mutex.init (flag : IpcFlag) : Mutex where
  value := 1
  originalPriority := 255
  hold := 0
  owner := none
  flag := flag

/-- Before the first thread with a higher number, or at the end. -/
def insertByPriority (priority : Tid → UInt8) (t : Tid) : List Tid → List Tid
  | [] => [t]
  | u :: threads =>
    if priority t < priority u then t :: u :: threads
    else u :: insertByPriority priority t threads

def Kernel.ipcListSuspend (k : Kernel) (object : ℕ) (t : Tid) (flag : IpcFlag) : Kernel :=
  let k := (k.threadSuspend t).1
  match flag with
  | .fifo => k.listInsertBefore (.suspend object) t
  | .prio =>
    { k with
      list := Function.update k.list (.suspend object)
        (insertByPriority (fun u => (k.thread u).currentPriority) t (k.list (.suspend object))) }

def Kernel.ipcListResume (k : Kernel) (object : ℕ) : Kernel :=
  match k.list (.suspend object) with
  | [] => k
  | t :: _ => (k.threadResume t).1

/-- The owner inherits the priority, the thread is suspended, and its timer started unless it waits
forever. -/
def Kernel.mutexWait (k : Kernel) (m : ℕ) (owner t : Tid) (flag : IpcFlag) (time : ℤ) : Kernel :=
  let priority := (k.thread t).currentPriority
  let k := if priority < (k.thread owner).currentPriority
    then k.threadChangePriority owner priority else k
  let k := k.ipcListSuspend m t flag
  if 0 < time then k.modify t fun thread => { thread with timer := true } else k

/-- The kernel and the mutexes. -/
structure Locks where
  kernel : Kernel
  mutex : ℕ → Mutex

namespace Locks

variable (s : Locks)

/-- A mutex is written. -/
def setMutex (m : ℕ) (mutex : Mutex) : Locks :=
  { s with mutex := Function.update s.mutex m mutex }

/-- `rt_mutex_take`, up to a switch: its result, or nothing yet. -/
def mutexTake (m : ℕ) (time : ℤ) : Option (Locks × Option Err) := do
  let t ← s.kernel.currentThread
  let k := s.kernel.modify t fun thread => { thread with error := .ok }
  let mutex := s.mutex m
  if mutex.owner = some t then
    return (Locks.setMutex ⟨k, s.mutex⟩ m { mutex with hold := mutex.hold + 1 }, some .ok)
  else if 0 < mutex.value then
    return (Locks.setMutex ⟨k, s.mutex⟩ m
      { mutex with
        value := mutex.value - 1
        owner := some t
        originalPriority := (k.thread t).currentPriority
        hold := mutex.hold + 1 }, some .ok)
  else if time = 0 then
    return (⟨k.modify t fun thread => { thread with error := .timeout }, s.mutex⟩, some .timeout)
  else
    let owner ← mutex.owner
    let k ← (k.mutexWait m owner t mutex.flag time).schedule
    return (⟨k, s.mutex⟩, none)

/-- What `rt_mutex_take` returns after a wait. -/
def mutexTakeReturn (t : Tid) : Err := (s.kernel.thread t).error

/-- `rt_mutex_release`, with the error number. -/
def mutexRelease (m : ℕ) : Option (Locks × Err) := do
  let t ← s.kernel.currentThread
  let mutex := s.mutex m
  if mutex.owner ≠ some t then
    return (⟨s.kernel.modify t fun thread => { thread with error := .error }, s.mutex⟩, .error)
  else
    let hold := mutex.hold - 1
    if hold = 0 then
      let k := if mutex.originalPriority ≠ (s.kernel.thread t).currentPriority
        then s.kernel.threadChangePriority t mutex.originalPriority else s.kernel
      match k.list (.suspend m) with
      | next :: _ =>
        let mutex := { mutex with
          owner := some next
          originalPriority := (k.thread next).currentPriority
          hold := hold + 1 }
        let k ← (k.ipcListResume m).schedule
        return (Locks.setMutex ⟨k, s.mutex⟩ m mutex, .ok)
      | [] =>
        let mutex := { mutex with
          value := mutex.value + 1
          owner := none
          originalPriority := 255
          hold := hold }
        return (Locks.setMutex ⟨k, s.mutex⟩ m mutex, .ok)
    else
      return (s.setMutex m { mutex with hold := hold }, .ok)

inductive Call where
  | thread (c : Kernel.Call)
  | take (m : ℕ) (time : ℤ)
  | release (m : ℕ)
  deriving DecidableEq, Repr

def call : Call → Option Locks
  | .thread c => (s.kernel.call c).map fun k => ⟨k, s.mutex⟩
  | .take m time => (s.mutexTake m time).map Prod.fst
  | .release m => (s.mutexRelease m).map Prod.fst

/-- No mutex is taken. -/
def boot (thread : Tid → UInt8 × Bool) (flag : ℕ → IpcFlag) : Locks :=
  ⟨Kernel.boot thread, fun m => Mutex.init (flag m)⟩

/-! ## What the calls do -/

/-- The error number of a thread. -/
abbrev writeError (t : Tid) (e : Err) : Kernel :=
  s.kernel.modify t fun thread => { thread with error := e }

/-- A thread has got back the priority saved in a mutex. -/
def restorePriority (m : ℕ) (t : Tid) : Kernel :=
  if (s.mutex m).originalPriority ≠ (s.kernel.thread t).currentPriority
    then s.kernel.threadChangePriority t (s.mutex m).originalPriority else s.kernel

/-- What `rt_mutex_take` by a thread does, and what it returns. -/
inductive Took (t : Tid) (m : ℕ) (time : ℤ) : Locks × Option Err → Prop
  | again (own : (s.mutex m).owner = some t) :
      Took t m time (setMutex ⟨s.writeError t .ok, s.mutex⟩ m
        { s.mutex m with hold := (s.mutex m).hold + 1 }, some .ok)
  | available (other : (s.mutex m).owner ≠ some t) (positive : 0 < (s.mutex m).value) :
      Took t m time (setMutex ⟨s.writeError t .ok, s.mutex⟩ m
        { s.mutex m with
          value := (s.mutex m).value - 1
          owner := some t
          originalPriority := ((s.writeError t .ok).thread t).currentPriority
          hold := (s.mutex m).hold + 1 }, some .ok)
  | refused (other : (s.mutex m).owner ≠ some t) (taken : ¬ 0 < (s.mutex m).value)
      (instant : time = 0) : Took t m time (⟨s.writeError t .timeout, s.mutex⟩, some .timeout)
  | waits {o : Tid} {k : Kernel} (owns : (s.mutex m).owner = some o) (other : t ≠ o)
      (taken : ¬ 0 < (s.mutex m).value) (patient : time ≠ 0)
      (next : ((s.writeError t .ok).mutexWait m o t (s.mutex m).flag time).schedule = some k) :
      Took t m time (⟨k, s.mutex⟩, none)

/-- What `rt_mutex_release` does and returns. -/
inductive Gave (t : Tid) (m : ℕ) : Locks × Err → Prop
  | foreign (other : (s.mutex m).owner ≠ some t) : Gave t m (⟨s.writeError t .error, s.mutex⟩, .error)
  | kept (own : (s.mutex m).owner = some t) (more : (s.mutex m).hold ≠ 1) :
      Gave t m (s.setMutex m { s.mutex m with hold := (s.mutex m).hold - 1 }, .ok)
  | freed (own : (s.mutex m).owner = some t) (last : (s.mutex m).hold = 1)
      (queue : (s.restorePriority m t).list (.suspend m) = []) :
      Gave t m (setMutex ⟨s.restorePriority m t, s.mutex⟩ m
        { s.mutex m with
          value := (s.mutex m).value + 1
          owner := none
          originalPriority := 255
          hold := 0 }, .ok)
  | handed {w : Tid} {rest : List Tid} {k : Kernel} (own : (s.mutex m).owner = some t)
      (last : (s.mutex m).hold = 1)
      (queue : (s.restorePriority m t).list (.suspend m) = w :: rest)
      (next : ((s.restorePriority m t).threadResume w).1.schedule = some k) :
      Gave t m (setMutex ⟨k, s.mutex⟩ m
        { s.mutex m with
          owner := some w
          originalPriority := ((s.restorePriority m t).thread w).currentPriority
          hold := 1 }, .ok)

variable {s} {t : Tid} {m : ℕ}

theorem took_of_mutexTake {time : ℤ} {result : Locks × Option Err}
    (current : s.kernel.currentThread = some t) (h : s.mutexTake m time = some result) :
    s.Took t m time result := by
  unfold mutexTake at h
  simp only [current, bind_eq_bind, bind_some] at h
  split_ifs at h with own positive instant
  · cases some.inj h
    exact .again own
  · cases some.inj h
    exact .available own positive
  · cases some.inj h
    rw [Kernel.modify_modify]
    exact .refused own positive instant
  · obtain ⟨o, owns, h⟩ := bind_eq_some_iff.mp h
    obtain ⟨k, next, h⟩ := bind_eq_some_iff.mp h
    cases some.inj h
    refine .waits owns ?_ positive instant next
    rintro rfl
    exact own owns

theorem gave_of_mutexRelease {result : Locks × Err} (current : s.kernel.currentThread = some t)
    (h : s.mutexRelease m = some result) : s.Gave t m result := by
  unfold mutexRelease at h
  simp only [current, bind_eq_bind, bind_some] at h
  by_cases own : (s.mutex m).owner = some t
  · rw [if_neg (not_not_intro own)] at h
    by_cases last : (s.mutex m).hold = 1
    · have zero : (s.mutex m).hold - 1 = 0 := by rw [last]; rfl
      cases queue : (s.restorePriority m t).list (.suspend m) with
      | nil =>
        have isQueue := queue
        unfold restorePriority at isQueue
        simp only [isQueue, zero] at h
        cases some.inj h
        exact .freed own last queue
      | cons w rest =>
        have isQueue := queue
        unfold restorePriority at isQueue
        simp only [isQueue, zero, Kernel.ipcListResume] at h
        obtain ⟨k, next, h⟩ := bind_eq_some_iff.mp h
        cases some.inj h
        exact .handed own last queue next
    · have more : (s.mutex m).hold - 1 ≠ 0 := fun zero => last (by
        rw [← UInt8.sub_add_cancel (s.mutex m).hold 1, zero]; rfl)
      rw [if_neg more] at h
      cases some.inj h
      exact .kept own last
  · rw [if_pos own] at h
    cases some.inj h
    exact .foreign own

/-- The value says if there is an owner. -/
def Counted (s : Locks) : Prop := ∀ m, (s.mutex m).value = if (s.mutex m).owner = none then 1 else 0

section

variable (counted : s.Counted)
include counted

theorem Counted.set (k : Kernel) {mutex : Mutex}
    (here : mutex.value = if mutex.owner = none then 1 else 0) :
    (setMutex ⟨k, s.mutex⟩ m mutex).Counted := by
  intro m'
  by_cases same : m' = m
  · simpa [setMutex, same] using here
  · simpa [setMutex, same] using counted m'

theorem Counted.owner_of_pos (positive : 0 < (s.mutex m).value) : (s.mutex m).owner = none := by
  by_contra owned
  rw [counted m, if_neg owned] at positive
  exact absurd positive (lt_irrefl 0)

theorem Counted.value_of_owner (owns : (s.mutex m).owner = some t) : (s.mutex m).value = 0 := by
  rw [counted m, owns]
  rfl

theorem Counted.took {time : ℤ} {result : Locks × Option Err} (took : s.Took t m time result) :
    result.1.Counted := by
  cases took with
  | again own => exact counted.set _ (counted m)
  | available other positive =>
    refine counted.set _ ?_
    rw [counted m, counted.owner_of_pos positive]
    rfl
  | refused other taken instant => exact counted
  | waits owns other taken patient next => exact counted

theorem Counted.gave {result : Locks × Err} (gave : s.Gave t m result) : result.1.Counted := by
  cases gave with
  | foreign other => exact counted
  | kept own more => exact counted.set _ (counted m)
  | freed own last queue =>
    refine counted.set _ ?_
    rw [counted.value_of_owner own]
    rfl
  | handed own last queue next => exact counted.set _ (counted.value_of_owner own)

theorem Counted.call {s' : Locks} {c : Call} (h : s.call c = some s') : s'.Counted := by
  cases c with
  | thread c =>
    obtain ⟨k, _, rfl⟩ := map_eq_some_iff.mp h
    exact counted
  | take m time =>
    obtain ⟨result, taken, rfl⟩ := map_eq_some_iff.mp h
    obtain ⟨t, current, _⟩ := bind_eq_some_iff.mp taken
    exact counted.took (took_of_mutexTake current taken)
  | release m =>
    obtain ⟨result, released, rfl⟩ := map_eq_some_iff.mp h
    obtain ⟨t, current, _⟩ := bind_eq_some_iff.mp released
    exact counted.gave (gave_of_mutexRelease current released)

end

theorem counted_boot (thread : Tid → UInt8 × Bool) (flag : ℕ → IpcFlag) :
    (boot thread flag).Counted := fun _ => rfl

end Locks

end Tm4cPilot.Rtt
