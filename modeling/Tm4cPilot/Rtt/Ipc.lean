import Tm4cPilot.Rtt.Inheritance

/-!
# Waiting for IPC objects

A thread is parked in the list of an object, and leaves it when it is resumed or when its timer
expires.  `Waiting` relates the lists to the threads in the middle of a call.  The switch to another
thread is a step of its own.
-/

namespace Tm4cPilot.Rtt

open List Function

theorem toNat_pred {x : UInt16} (positive : 0 < x) : (x - 1).toNat + 1 = x.toNat := by
  have bound : 1 ≤ x.toNat := UInt16.lt_iff_toNat_lt.mp positive
  have one : (1 : UInt16) ≤ x := UInt16.le_iff_toNat_le.mpr bound
  rw [UInt16.toNat_sub_of_le _ _ one]
  exact Nat.sub_add_cancel bound

theorem toNat_succ {x : UInt16} (below : x.toNat < 65535) : (x + 1).toNat = x.toNat + 1 := by
  exact Nat.mod_eq_of_lt (show x.toNat + 1 < 65536 by omega)

theorem eq_zero_of_not_pos {x : UInt16} (h : ¬ 0 < x) : x = 0 := by
  have none : ¬ 0 < x.toNat := fun positive => h (UInt16.lt_iff_toNat_lt.mpr positive)
  exact UInt16.toNat_inj.mp (Nat.eq_zero_of_not_pos none)

namespace Kernel

variable {k k' : Kernel} {t : Tid} {m : ℕ}

/-- The thread is suspended, and its timer started unless it waits forever. -/
def ipcWait (k : Kernel) (object : ℕ) (t : Tid) (flag : IpcFlag) (time : ℤ) : Kernel :=
  let k := k.modify t fun thread => { thread with error := .ok }
  let k := k.ipcListSuspend object t flag
  if 0 < time then k.modify t fun thread => { thread with timer := true } else k

/-- `rt_thread_timeout` up to the switch to another thread. -/
def expires (k : Kernel) (t : Tid) : Option Kernel :=
  if (k.thread t).timer = true ∧ (k.thread t).stat = .suspend then
    let k := k.modify t fun thread => { thread with timer := false, error := .timeout }
    some ((k.listRemove t).scheduleInsertThread t)
  else none

theorem timerExpires_of_expires (h : k.expires t = some k') : k.timerExpires t = k'.schedule := by
  unfold expires at h
  split_ifs at h with active
  rw [← Option.some.inj h, timerExpires, if_pos active.1, threadTimeout, if_neg (by simp [active.2]),
    modify_modify]

/-! ## Parking and waking -/

/-- The suspend lists hold suspended threads, each in one list. -/
structure Parked (k : Kernel) : Prop where
  suspended : ∀ m, ∀ t ∈ k.list (.suspend m), (k.thread t).stat = .suspend
  nodup : ∀ m, (k.list (.suspend m)).Nodup
  once : ∀ m m' t, t ∈ k.list (.suspend m) → t ∈ k.list (.suspend m') → m = m'

theorem Parked.of_empty (empty : ∀ m, k.list (.suspend m) = []) : k.Parked :=
  ⟨by simp [empty], by simp [empty], by simp [empty]⟩

/-- All threads are ready. -/
def allReady (thread : Tid → UInt8 × Bool) : Kernel :=
  { boot thread with thread := fun t => { (boot thread).thread t with stat := .ready } }

theorem Waiters.parked (waiters : k.Waiters) : k.Parked :=
  ⟨waiters.suspended, waiters.nodup, waiters.once⟩

theorem Parked.unlinked (parked : k.Parked) (ready : (k.thread t).stat = .ready) (m : ℕ) :
    t ∉ k.list (.suspend m) := by
  intro inList
  rw [parked.suspended m t inList] at ready
  cases ready

/-- What parking changes. -/
structure Parks (k : Kernel) (m : ℕ) (t : Tid) (k' : Kernel) : Prop where
  stat : ∀ u, (k'.thread u).stat = if u = t then .suspend else (k.thread u).stat
  error : ∀ u, (k'.thread u).error = if u = t then .ok else (k.thread u).error
  mem : ∀ m' u, u ∈ k'.list (.suspend m') ↔ m' = m ∧ u = t ∨ u ∈ k.list (.suspend m')
  nodup : ∀ m', (k'.list (.suspend m')).Nodup

/-- What waking changes. -/
structure Wakes (k : Kernel) (t : Tid) (e : Err) (k' : Kernel) : Prop where
  stat : ∀ u, (k'.thread u).stat = if u = t then .ready else (k.thread u).stat
  error : ∀ u, (k'.thread u).error = if u = t then e else (k.thread u).error
  list : ∀ m, k'.list (.suspend m) = (k.list (.suspend m)).erase t

theorem Parked.parks (parked : k.Parked) (unlinked : ∀ m, t ∉ k.list (.suspend m))
    (parks : k.Parks m t k') : k'.Parked := by
  refine ⟨fun m' u inList => ?_, parks.nodup, once_of_mem_iff parked.once parks.mem unlinked⟩
  rw [parks.stat]
  rcases (parks.mem m' u).mp inList with ⟨-, rfl⟩ | before
  · rw [if_pos rfl]
  · rw [parked.suspended m' u before, ite_self]

theorem Parks.waited (parks : k.Parks m t k') {m' : ℕ} (other : m' ≠ m)
    (waits : k'.list (.suspend m') ≠ []) : k.list (.suspend m') ≠ [] := by
  obtain ⟨u, inList⟩ := exists_mem_of_ne_nil _ waits
  exact ne_nil_of_mem (((parks.mem m' u).mp inList).resolve_left fun h => other h.1)

theorem Wakes.waited {e : Err} (wakes : k.Wakes t e k') (waits : k'.list (.suspend m) ≠ []) :
    k.list (.suspend m) ≠ [] := by
  intro none
  rw [wakes.list, none, erase_nil] at waits
  exact waits rfl

theorem Wakes.other {e : Err} (wakes : k.Wakes t e k') (parked : k.Parked) {u : Tid}
    (inList : u ∈ k'.list (.suspend m)) : u ≠ t ∧ u ∈ k.list (.suspend m) := by
  rw [wakes.list] at inList
  refine ⟨?_, mem_of_mem_erase inList⟩
  rintro rfl
  exact (parked.nodup m).not_mem_erase inList

theorem Parked.wakes (parked : k.Parked) {e : Err} (wakes : k.Wakes t e k') : k'.Parked := by
  refine ⟨fun m u inList => ?_, fun m => ?_, fun m₁ m₂ u in₁ in₂ => ?_⟩
  · obtain ⟨other, before⟩ := wakes.other parked inList
    rw [wakes.stat, if_neg other]
    exact parked.suspended m u before
  · rw [wakes.list]
    exact (parked.nodup m).erase t
  · exact parked.once m₁ m₂ u (wakes.other parked in₁).2 (wakes.other parked in₂).2

theorem Parked.ipcListSuspend (parked : k.Parked) (ready : (k.thread t).stat = .ready) (m : ℕ)
    (flag : IpcFlag) :
    (∀ u, ((k.ipcListSuspend m t flag).thread u).stat =
      if u = t then .suspend else (k.thread u).stat) ∧
    (∀ u, ((k.ipcListSuspend m t flag).thread u).error = (k.thread u).error) ∧
    (∀ m' u, u ∈ (k.ipcListSuspend m t flag).list (.suspend m') ↔
      m' = m ∧ u = t ∨ u ∈ k.list (.suspend m')) ∧
    ∀ m', ((k.ipcListSuspend m t flag).list (.suspend m')).Nodup := by
  have unlinked := parked.unlinked ready
  obtain ⟨threads, result, mem, nodup⟩ := exists_ipcListSuspend k m t flag
  rw [result]
  simp only [threadSuspend_of_ready ready] at mem nodup ⊢
  refine ⟨fun u => ?_, fun u => ?_, fun m' u => ?_, fun m' => ?_⟩
  · by_cases same : u = t <;> simp [same]
  · by_cases same : u = t <;> simp [same]
  · by_cases here : m' = m
    · simpa [here, erase_of_not_mem (unlinked m)] using mem u
    · simp [here, erase_of_not_mem (unlinked m')]
  · by_cases here : m' = m
    · simpa [here, erase_of_not_mem (unlinked m), parked.nodup m, unlinked m] using nodup
    · simpa [here, erase_of_not_mem (unlinked m')] using parked.nodup m'

theorem Parked.modify (parked : k.Parked) (t : Tid) {f : Thread → Thread}
    (keeps : (f (k.thread t)).stat = (k.thread t).stat) : (k.modify t f).Parked := by
  refine ⟨fun m u inList => ?_, parked.nodup, parked.once⟩
  by_cases same : u = t
  · subst same
    simpa [keeps] using parked.suspended m u inList
  · simpa [same] using parked.suspended m u inList

theorem Parked.ipcWait (parked : k.Parked) (ready : (k.thread t).stat = .ready) (m : ℕ)
    (flag : IpcFlag) (time : ℤ) : k.Parks m t (k.ipcWait m t flag time) := by
  obtain ⟨stat, error, mem, nodup⟩ := (parked.modify t (f := fun thread =>
    { thread with error := .ok }) rfl).ipcListSuspend (t := t) (by simpa using ready) m flag
  have parks : k.Parks m t ((k.modify t fun thread => { thread with error := .ok }).ipcListSuspend
      m t flag) := by
    refine ⟨fun u => ?_, fun u => ?_, mem, nodup⟩
    · rw [stat]
      by_cases same : u = t <;> simp [same]
    · rw [error]
      by_cases same : u = t <;> simp [same]
  unfold Kernel.ipcWait
  by_cases limited : 0 < time
  · rw [if_pos limited]
    refine ⟨fun u => ?_, fun u => ?_, parks.mem, parks.nodup⟩
    · rw [← parks.stat u]
      by_cases same : u = t <;> simp [same]
    · rw [← parks.error u]
      by_cases same : u = t <;> simp [same]
  · rw [if_neg limited]
    exact parks

theorem wakes_threadResume (suspended : (k.thread t).stat = .suspend) :
    k.Wakes t (k.thread t).error (k.threadResume t).1 := by
  rw [threadResume_of_suspend suspended]
  refine ⟨fun u => ?_, fun u => ?_, fun m => by simp⟩
  · by_cases same : u = t <;> simp [same]
  · by_cases same : u = t <;> simp [same]

theorem wakes_expires (h : k.expires t = some k') :
    (k.thread t).stat = .suspend ∧ k.Wakes t .timeout k' := by
  unfold expires at h
  split_ifs at h with active
  refine ⟨active.2, ?_⟩
  rw [← Option.some.inj h]
  refine ⟨fun u => ?_, fun u => ?_, fun m => by simp⟩
  · by_cases same : u = t <;> simp [same]
  · by_cases same : u = t <;> simp [same]

end Kernel

/-! ## Threads in the middle of a call -/

/-- `calls` gives the object of a thread in the middle of a call, and whether it is served. Threads
linked in its list are not; one that waits no longer is ready, without an error exactly if it is. -/
structure Waiting (k : Kernel) (calls : Tid → Option (ℕ × Bool)) : Prop where
  linked : ∀ m, ∀ t ∈ k.list (.suspend m), calls t = some (m, false) ∧ (k.thread t).error = .ok
  resumed : ∀ t m served, calls t = some (m, served) → t ∉ k.list (.suspend m) →
    (k.thread t).stat = .ready ∧ ((k.thread t).error = .ok ↔ served = true)

namespace Waiting

variable {k k' : Kernel} {calls : Tid → Option (ℕ × Bool)} {t : Tid} {m : ℕ}

theorem of_empty (empty : ∀ m, k.list (.suspend m) = []) (outside : ∀ t, calls t = none) :
    Waiting k calls :=
  ⟨by simp [empty], by simp [outside]⟩

section

variable (waiting : Waiting k calls)
include waiting

theorem of_same (lists : ∀ m, k'.list (.suspend m) = k.list (.suspend m))
    (same : ∀ t, calls t ≠ none → (k'.thread t).stat = (k.thread t).stat ∧
      (k'.thread t).error = (k.thread t).error) :
    Waiting k' calls := by
  refine ⟨fun m t inList => ?_, fun t m served inCall gone => ?_⟩
  · rw [lists] at inList
    obtain ⟨inCall, ok⟩ := waiting.linked m t inList
    exact ⟨inCall, by rw [(same t (by simp [inCall])).2, ok]⟩
  · rw [lists] at gone
    obtain ⟨stat, error⟩ := same t (by simp [inCall])
    rw [stat, error]
    exact waiting.resumed t m served inCall gone

theorem unserved {served : Bool} (inCall : calls t = some (m, served))
    (suspended : (k.thread t).stat = .suspend) : served = false := by
  by_cases inList : t ∈ k.list (.suspend m)
  · obtain ⟨isCall, -⟩ := waiting.linked m t inList
    rw [isCall] at inCall
    cases inCall
    rfl
  · have ready := (waiting.resumed t m served inCall inList).1
    rw [suspended] at ready
    cases ready

theorem wake (parked : k.Parked) {e : Err} (wakes : k.Wakes t e k') (served : Bool)
    (error : e = .ok ↔ served = true) :
    Waiting k' (update calls t ((calls t).map fun call => (call.1, served))) := by
  refine ⟨fun m u inList => ?_, fun u m isServed inCall gone => ?_⟩
  · obtain ⟨other, before⟩ := wakes.other parked inList
    obtain ⟨inCall, ok⟩ := waiting.linked m u before
    rw [update_of_ne other, wakes.error, if_neg other]
    exact ⟨inCall, ok⟩
  · rw [wakes.stat, wakes.error]
    by_cases same : u = t
    · subst same
      rw [update_self] at inCall
      obtain ⟨call, -, isCall⟩ := Option.map_eq_some_iff.mp inCall
      cases isCall
      rw [if_pos rfl, if_pos rfl]
      exact ⟨rfl, error⟩
    · rw [update_of_ne same] at inCall
      rw [wakes.list, mem_erase_of_ne same] at gone
      rw [if_neg same, if_neg same]
      exact waiting.resumed u m isServed inCall gone

theorem expire (parked : k.Parked) (suspended : (k.thread t).stat = .suspend)
    (wakes : k.Wakes t .timeout k') : Waiting k' calls := by
  have woken := waiting.wake parked wakes false (by simp)
  have same : (calls t).map (fun call => (call.1, false)) = calls t := by
    cases isCall : calls t with
    | none => rfl
    | some call =>
      obtain ⟨m, served⟩ := call
      rw [waiting.unserved isCall suspended]
      rfl
  rwa [same, update_eq_self] at woken

theorem serve (parked : k.Parked) (inList : t ∈ k.list (.suspend m))
    (wakes : k.Wakes t (k.thread t).error k') : Waiting k' (update calls t (some (m, true))) := by
  obtain ⟨inCall, ok⟩ := waiting.linked m t inList
  have woken := waiting.wake parked wakes true (by simp [ok])
  rwa [inCall] at woken

theorem park (outside : calls t = none) (parks : k.Parks m t k') :
    Waiting k' (update calls t (some (m, false))) := by
  refine ⟨fun m' u inList => ?_, fun u m' served inCall gone => ?_⟩
  · rw [parks.error]
    by_cases same : u = t
    · subst same
      rcases (parks.mem m' u).mp inList with ⟨rfl, -⟩ | before
      · rw [update_self, if_pos rfl]
        exact ⟨rfl, rfl⟩
      · rw [(waiting.linked m' u before).1] at outside
        cases outside
    · have before := ((parks.mem m' u).mp inList).resolve_left fun h => same h.2
      rw [update_of_ne same, if_neg same]
      exact waiting.linked m' u before
  · rw [parks.mem, not_or] at gone
    by_cases same : u = t
    · subst same
      rw [update_self] at inCall
      cases inCall
      exact absurd ⟨rfl, rfl⟩ gone.1
    · rw [update_of_ne same] at inCall
      rw [parks.stat, parks.error, if_neg same, if_neg same]
      exact waiting.resumed u m' served inCall gone.2

theorem leave (unlinked : ∀ m, t ∉ k.list (.suspend m)) : Waiting k (update calls t none) := by
  refine ⟨fun m u inList => ?_, fun u m served inCall => ?_⟩
  · have other : u ≠ t := by
      rintro rfl
      exact unlinked m inList
    rw [update_of_ne other]
    exact waiting.linked m u inList
  · have other : u ≠ t := by
      rintro rfl
      simp at inCall
    rw [update_of_ne other] at inCall
    exact waiting.resumed u m served inCall

end

end Waiting

end Tm4cPilot.Rtt
