import Tm4cPilot.Rtt.Ipc

/-!
# RT-Thread semaphores

`rt_sem_take`, `rt_sem_trytake` and `rt_sem_release`, called in any interleaving.  A release either
adds to the value or wakes a waiter.
-/

namespace Tm4cPilot.Rtt

open Option Function Run

/-- `struct rt_semaphore`; the kernel has its suspend list. -/
structure Sem where
  value : UInt16
  flag : IpcFlag
  deriving DecidableEq, Repr

/-- The kernel and the semaphores. -/
structure Semaphores where
  kernel : Kernel
  sem : ℕ → Sem

namespace Semaphores

variable (s : Semaphores)

/-- A value is written. -/
def setValue (n : ℕ) (value : UInt16) : Semaphores :=
  { s with sem := update s.sem n { s.sem n with value := value } }

/-- `rt_sem_take` up to the switch. An interrupt handler cannot wait. -/
def semTake (n : ℕ) (self : Option Tid) (time : ℤ) : Option (Semaphores × Option Err) :=
  if 0 < (s.sem n).value then some (s.setValue n ((s.sem n).value - 1), some .ok)
  else if time = 0 then some (s, some .timeout)
  else do
    let t ← self
    return ({ s with kernel := s.kernel.ipcWait n t (s.sem n).flag time }, none)

/-- What `rt_sem_take` returns after a wait. -/
def semTakeReturn (t : Tid) : Err := (s.kernel.thread t).error

def semTrytake (n : ℕ) (self : Option Tid) : Option (Semaphores × Option Err) := s.semTake n self 0

def semRelease (n : ℕ) : Semaphores :=
  if s.kernel.list (.suspend n) ≠ [] then { s with kernel := s.kernel.ipcListResume n }
  else s.setValue n ((s.sem n).value + 1)

end Semaphores

/-- The semaphores, the one a thread is taking, with whether it is woken, and the takes and
releases. -/
structure Tokens where
  semaphores : Semaphores
  taking : Tid → Option (ℕ × Bool)
  takes : ℕ → ℕ
  releases : ℕ → ℕ

/-- What can happen. `self` is nothing for an interrupt handler. -/
inductive Tokens.Event where
  | take (self : Option Tid) (n : ℕ) (time : ℤ)
  | trytake (self : Option Tid) (n : ℕ)
  | takeReturn (t : Tid)
  | release (n : ℕ)
  | timeout (t : Tid)
  deriving DecidableEq, Repr

namespace Tokens

variable (l : Tokens)

/-- An interrupt handler, or a ready thread outside of a call. -/
def CanCall (self : Option Tid) : Prop :=
  ∀ t ∈ self, (l.semaphores.kernel.thread t).stat = .ready ∧ l.taking t = none
deriving Decidable

/-- A take is counted. -/
def record (n : ℕ) (self : Option Tid) (result : Semaphores × Option Err) : Tokens :=
  match result.2, self with
  | some .ok, _ => { l with
      semaphores := result.1, takes := update l.takes n (l.takes n + 1) }
  | none, some t => { l with
      semaphores := result.1, taking := update l.taking t (some (n, false)) }
  | _, _ => { l with semaphores := result.1 }

def step : Event → Option Tokens
  | .take self n time =>
    if l.CanCall self then (l.semaphores.semTake n self time).map (l.record n self) else none
  | .trytake self n =>
    if l.CanCall self then (l.semaphores.semTrytake n self).map (l.record n self) else none
  | .takeReturn t =>
    if (l.semaphores.kernel.thread t).stat = .ready then
      some { l with taking := update l.taking t none }
    else none
  | .release n =>
    let released := { l with
      semaphores := l.semaphores.semRelease n
      releases := update l.releases n (l.releases n + 1) }
    match l.semaphores.kernel.list (.suspend n) with
    | [] => some released
    | w :: _ => some { released with
        takes := update l.takes n (l.takes n + 1)
        taking := update l.taking w (some (n, true)) }
  | .timeout t =>
    (l.semaphores.kernel.expires t).map fun kernel =>
      { l with semaphores := { l.semaphores with kernel } }

/-- No takes and no releases. -/
def start (semaphores : Semaphores) : Tokens where
  semaphores := semaphores
  taking _ := none
  takes _ := 0
  releases _ := 0

/-- No value overflows. -/
def Below : Event → Prop
  | .release n => (l.semaphores.sem n).value < 65535
  | _ => True

instance (e : Event) : Decidable (l.Below e) := by
  cases e <;> unfold Below <;> infer_instance

/-- The tokens of the semaphores `s` are conserved. -/
structure Conserved (s : Semaphores) : Prop where
  count : ∀ n, (l.semaphores.sem n).value.toNat + l.takes n = (s.sem n).value.toNat + l.releases n
  /-- While a thread is suspended on a semaphore there is nothing to take. -/
  empty : ∀ n, l.semaphores.kernel.list (.suspend n) ≠ [] → (l.semaphores.sem n).value = 0
  /-- A take that had to wait returns success exactly if a release has woken the thread. -/
  returns : ∀ t n woken, l.taking t = some (n, woken) →
    (l.semaphores.kernel.thread t).stat = .ready →
    (l.semaphores.semTakeReturn t = .ok ↔ woken = true)

/-! ## The steps -/

variable {l} {l' : Tokens} {s : Semaphores} {n : ℕ} {t : Tid}

/-- What every event keeps. -/
structure Valid (s : Semaphores) (l : Tokens) : Prop where
  parked : l.semaphores.kernel.Parked
  waiting : Waiting l.semaphores.kernel l.taking
  count : ∀ n, (l.semaphores.sem n).value.toNat + l.takes n = (s.sem n).value.toNat + l.releases n
  empty : ∀ n, l.semaphores.kernel.list (.suspend n) ≠ [] → (l.semaphores.sem n).value = 0

section

variable (valid : l.Valid s)
include valid

theorem Valid.conserved : l.Conserved s := by
  refine ⟨valid.count, valid.empty, fun t n woken inCall ready => ?_⟩
  exact (valid.waiting.resumed t n woken inCall (valid.parked.unlinked ready n)).2

theorem Valid.setValue {value : UInt16} {takes releases : ℕ → ℕ}
    (count : value.toNat + takes n = (s.sem n).value.toNat + releases n)
    (elsewhere : ∀ n', n' ≠ n → takes n' = l.takes n' ∧ releases n' = l.releases n')
    (free : l.semaphores.kernel.list (.suspend n) = []) :
    Valid s ⟨l.semaphores.setValue n value, l.taking, takes, releases⟩ := by
  refine ⟨valid.parked, valid.waiting, fun n' => ?_, fun n' waits => ?_⟩
  · by_cases here : n' = n
    · subst here
      simpa [Semaphores.setValue] using count
    · simpa [Semaphores.setValue, here, elsewhere n' here] using valid.count n'
  · have other : n' ≠ n := by
      rintro rfl
      exact waits free
    simpa [Semaphores.setValue, other] using valid.empty n' waits

theorem Valid.take {self : Option Tid} {time : ℤ} (canCall : l.CanCall self)
    {result : Semaphores × Option Err} (h : l.semaphores.semTake n self time = some result) :
    (l.record n self result).Valid s := by
  unfold Semaphores.semTake at h
  split_ifs at h with positive instant
  · -- the value is positive
    cases some.inj h
    have free : l.semaphores.kernel.list (.suspend n) = [] := by
      by_contra waits
      rw [valid.empty n waits] at positive
      exact absurd positive (lt_irrefl 0)
    refine valid.setValue ?_ (fun n' other => ⟨update_of_ne other _ _, rfl⟩) free
    have count := valid.count n
    rw [← toNat_pred positive] at count
    rw [update_self]
    omega
  · cases some.inj h
    cases self with
    | none => exact valid
    | some t => exact valid
  · -- the thread waits
    obtain ⟨t, rfl, h⟩ := bind_eq_some_iff.mp h
    cases some.inj h
    obtain ⟨ready, outside⟩ := canCall t rfl
    have parks := valid.parked.ipcWait ready n (l.semaphores.sem n).flag time
    refine ⟨valid.parked.parks (valid.parked.unlinked ready) parks, valid.waiting.park outside parks,
      valid.count, fun n' waits => ?_⟩
    by_cases here : n' = n
    · subst here
      exact eq_zero_of_not_pos positive
    · exact valid.empty n' (parks.waited here waits)

theorem Valid.wake {k : Kernel} {e : Err} (wakes : l.semaphores.kernel.Wakes t e k)
    {taking : Tid → Option (ℕ × Bool)} (waiting : Waiting k taking) {takes releases : ℕ → ℕ}
    (count : ∀ n, (l.semaphores.sem n).value.toNat + takes n = (s.sem n).value.toNat + releases n) :
    Valid s ⟨⟨k, l.semaphores.sem⟩, taking, takes, releases⟩ :=
  ⟨valid.parked.wakes wakes, waiting, count, fun n waits => valid.empty n (wakes.waited waits)⟩

theorem Valid.release (below : l.Below (.release n)) (h : l.step (.release n) = some l') :
    l'.Valid s := by
  unfold step at h
  cases queue : l.semaphores.kernel.list (.suspend n) with
  | nil =>
    simp only [queue, Semaphores.semRelease, ne_eq, not_true_eq_false, if_false, some.injEq] at h
    rw [← h]
    refine valid.setValue ?_ (fun n' other => ⟨rfl, update_of_ne other _ _⟩) queue
    have count := valid.count n
    rw [toNat_succ (UInt16.lt_iff_toNat_lt.mp below), update_self]
    omega
  | cons w rest =>
    simp only [queue, Semaphores.semRelease, ne_eq, reduceCtorEq, not_false_eq_true, if_true,
      Kernel.ipcListResume, some.injEq] at h
    rw [← h]
    have inList : w ∈ l.semaphores.kernel.list (.suspend n) := queue ▸ List.mem_cons_self
    have wakes := Kernel.wakes_threadResume (valid.parked.suspended n w inList)
    refine valid.wake wakes (valid.waiting.serve valid.parked inList wakes) fun n' => ?_
    have count := valid.count n'
    by_cases here : n' = n
    · subst here
      rw [update_self, update_self]
      omega
    · rw [update_of_ne here, update_of_ne here]
      exact count

theorem Valid.step {e : Event} (below : l.Below e) (h : l.step e = some l') : l'.Valid s := by
  cases e with
  | take self n time =>
    unfold Tokens.step at h
    dsimp only at h
    split_ifs at h with canCall
    obtain ⟨result, taken, rfl⟩ := map_eq_some_iff.mp h
    exact valid.take canCall taken
  | trytake self n =>
    unfold Tokens.step at h
    dsimp only at h
    split_ifs at h with canCall
    obtain ⟨result, taken, rfl⟩ := map_eq_some_iff.mp h
    exact valid.take canCall taken
  | takeReturn t =>
    unfold Tokens.step at h
    dsimp only at h
    split_ifs at h with ready
    rw [← some.inj h]
    exact ⟨valid.parked, valid.waiting.leave (valid.parked.unlinked ready), valid.count, valid.empty⟩
  | release n => exact valid.release below h
  | timeout t =>
    obtain ⟨k, expired, rfl⟩ := map_eq_some_iff.mp h
    obtain ⟨suspended, wakes⟩ := Kernel.wakes_expires expired
    exact valid.wake wakes (valid.waiting.expire valid.parked suspended wakes) valid.count

end

/-- In every interleaving in which no value overflows, the tokens are conserved. -/
theorem conserved_of_below (semaphores : Semaphores)
    (idle : ∀ n, semaphores.kernel.list (.suspend n) = []) (events : List Event)
    (below : Run.Along (lift step) (fun o e => ∀ l ∈ o, l.Below e) (some (start semaphores))
      events) :
    ∀ l ∈ run (lift step) (some (start semaphores)) events, l.Conserved semaphores := by
  have initial : (start semaphores).Valid semaphores :=
    ⟨.of_empty idle, .of_empty idle fun _ => rfl, fun _ => rfl, fun n waits => absurd (idle n) waits⟩
  have valid : ∀ l ∈ run (lift step) (some (start semaphores)) events,
      l.Valid semaphores := by
    refine below.invariant (I := fun o : Option Tokens => ∀ l ∈ o, l.Valid semaphores) ?_ ?_
    · intro o e isBelow valid l' reached
      obtain ⟨l, isL, stepped⟩ := bind_eq_some_iff.mp reached
      exact (valid l isL).step (isBelow l isL) stepped
    · rintro _ ⟨⟩
      exact initial
  exact fun l reached => (valid l reached).conserved

/-- A semaphore of value 1. -/
def oneToken : Semaphores where
  kernel := .allReady Locks.threeThreads
  sem _ := ⟨1, .fifo⟩

/-- A take, two waiters, of which one gives up, and two releases. -/
def contention : List Event :=
  [.take (some 1) 0 (-1), .take (some 2) 0 5, .take (some 3) 0 (-1), .timeout 2, .trytake none 0,
    .release 0, .release 0, .takeReturn 2, .takeReturn 3]

theorem conserved_of_below_contention :
    Run.Along (lift step) (fun o e => ∀ l ∈ o, l.Below e) (some (start oneToken)) contention ∧
    ∃ l ∈ run (lift step) (some (start oneToken)) contention,
      l.Conserved oneToken ∧ (l.semaphores.sem 0).value = 1 ∧ l.takes 0 = 2 ∧ l.releases 0 = 2 := by
  have below : Run.Along (lift step) (fun o e => ∀ l ∈ o, l.Below e) (some (start oneToken))
      contention := by decide +kernel
  have state : (run (lift step) (some (start oneToken)) contention).map
      (fun l => ((l.semaphores.sem 0).value, l.takes 0, l.releases 0)) = some (1, 2, 2) := by
    decide +kernel
  obtain ⟨l, reached, values⟩ := map_eq_some_iff.mp state
  simp only [Prod.mk.injEq] at values
  exact ⟨below, l, reached, conserved_of_below oneToken (fun _ => rfl) contention below l reached,
    values⟩

end Tokens

end Tm4cPilot.Rtt
