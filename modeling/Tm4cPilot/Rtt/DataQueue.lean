import Tm4cPilot.Rtt.Ipc

/-!
# RT-Thread data queues

`rt_data_queue_push` and `rt_data_queue_pop`, up to the first switch to another thread.  The
difference of the 16-bit indices is signed, so it is negative as soon as only one of them has
wrapped.
-/

namespace Tm4cPilot.Rtt

open List Run Nat UInt16 Function

/-- An item of a queue. -/
structure DataItem where
  dataPtr : UInt32
  dataSize : UInt32
  deriving DecidableEq, Repr

/-- What `evt_notify` is called with. -/
inductive DataQueueEvent where
  | pop
  | push
  | lwm
  deriving DecidableEq, Repr

/-- `struct rt_data_queue`. -/
structure DataQueue where
  size : UInt16
  lwm : UInt16
  getIndex : UInt16
  putIndex : UInt16
  queue : ℕ → DataItem

namespace DataQueue

/-- `rt_data_queue_init`, with its memory. -/
def init (size lwm : UInt16) (queue : ℕ → DataItem) : DataQueue where
  size := size
  lwm := lwm
  getIndex := 0
  putIndex := 0
  queue := queue

variable (q : DataQueue)

/-- The difference of the indices. -/
def difference : ℤ := q.putIndex.toNat - q.getIndex.toNat

/-- The part of `rt_data_queue_push` that stores an item. -/
def put (item : DataItem) : DataQueue :=
  { q with
    queue := update q.queue (q.putIndex.toNat % q.size.toNat) item
    putIndex := q.putIndex + 1 }

/-- The part of `rt_data_queue_pop` that fetches an item. -/
def get : DataItem × DataQueue :=
  (q.queue (q.getIndex.toNat % q.size.toNat), { q with getIndex := q.getIndex + 1 })

end DataQueue

def suspendedPushList : ℕ := 0

def suspendedPopList : ℕ := 1

/-- The kernel and the queue. -/
structure DataSystem where
  kernel : Kernel
  dataQueue : DataQueue

namespace DataSystem

variable (s : DataSystem)

/-- The first waiter is resumed. -/
def resumeFirst (list : ℕ) : Kernel × Bool :=
  if s.kernel.list (.suspend list) ≠ [] then (s.kernel.ipcListResume list, true)
  else (s.kernel, false)

/-- `rt_data_queue_push`; nothing if the thread waits. -/
def push (t : Tid) (item : DataItem) (timeout : Int32) :
    DataSystem × Option (Err × Option DataQueueEvent) :=
  if s.dataQueue.difference = s.dataQueue.size.toNat then
    if timeout = 0 then (s, some (.timeout, none))
    else
      ({ s with kernel := s.kernel.ipcWait suspendedPushList t .fifo timeout.toInt }, none)
  else
    let resumed := s.resumeFirst suspendedPopList
    ({ kernel := resumed.1, dataQueue := s.dataQueue.put item },
      some (.ok, if resumed.2 then none else some .push))

/-- `rt_data_queue_pop`, up to the first switch. -/
def pop (t : Tid) (timeout : Int32) :
    DataSystem × Option (Err × Option DataItem × Option DataQueueEvent) :=
  if s.dataQueue.getIndex = s.dataQueue.putIndex then
    if timeout = 0 then (s, some (.timeout, none, none))
    else ({ s with kernel := s.kernel.ipcWait suspendedPopList t .fifo timeout.toInt }, none)
  else
    let (item, dataQueue) := s.dataQueue.get
    if dataQueue.difference ≤ dataQueue.lwm.toNat then
      ({ kernel := (s.resumeFirst suspendedPushList).1, dataQueue },
        some (.ok, some item, some .lwm))
    else ({ s with dataQueue }, some (.ok, some item, some .pop))

inductive Call where
  | push (t : Tid) (item : DataItem)
  | pop (t : Tid)
  deriving DecidableEq, Repr

/-- What a call returns. -/
structure Reply where
  result : Err
  item : Option DataItem
  deriving DecidableEq, Repr

def call (s : DataSystem) : Call → Option Reply × DataSystem
  | .push t item => ((s.push t item 0).2.map fun reply => ⟨reply.1, none⟩, (s.push t item 0).1)
  | .pop t => ((s.pop t 0).2.map fun reply => ⟨reply.1, reply.2.1⟩, (s.pop t 0).1)

/-- A queue of at most `size` items. -/
def fifo (size : ℕ) (items : List DataItem) : Call → Reply × List DataItem
  | .push _ item =>
    if items.length < size then (⟨.ok, none⟩, items ++ [item]) else (⟨.timeout, none⟩, items)
  | .pop _ =>
    match items with
    | [] => (⟨.timeout, none⟩, [])
    | item :: items => (⟨.ok, some item⟩, items)

end DataSystem

/-! ## What is in the queue -/

namespace DataQueue

variable {q : DataQueue} {items : List DataItem}

/-- The items in the order of the pushes. -/
structure Stores (q : DataQueue) (items : List DataItem) : Prop where
  length_le : items.length ≤ q.size.toNat
  putIndex : q.putIndex.toNat = (q.getIndex.toNat + items.length) % 65536
  item : ∀ i (h : i < items.length),
    q.queue ((q.getIndex.toNat + i) % 65536 % q.size.toNat) = items[i]

/-- No index has wrapped alone, or it keeps away from the items. -/
def Clear (q : DataQueue) : Prop :=
  q.getIndex ≤ q.putIndex ∨
    (q.putIndex - q.getIndex).toNat < q.size.toNat ∧
      ¬(q.putIndex.toNat < 65536 % q.size.toNat ∧
        65536 % q.size.toNat ≤ (q.putIndex - q.getIndex).toNat)
deriving Decidable

theorem stores_init (size lwm : UInt16) (queue : ℕ → DataItem) : (init size lwm queue).Stores [] :=
  ⟨zero_le _, rfl, nofun⟩

theorem slot_ne {size first n i : ℕ} (firstLt : first < 65536) (space : n < size) (old : i < n)
    (clear : first + n < 65536 ∨
    ¬(first + n - 65536 < 65536 % size ∧ 65536 % size ≤ n)) (small : size ≤ 65536) :
    (first + i) % 65536 % size ≠ (first + n) % 65536 % size := by
  by_cases wrapped : first + n < 65536
  · have below : first + i < 65536 := by omega
    rw [mod_eq_of_lt wrapped, mod_eq_of_lt below]
    intro same
    have apart : (first + n - (first + i)) % size = 0 := sub_mod_eq_zero_of_mod_eq same.symm
    rw [mod_eq_of_lt (by omega)] at apart
    omega
  · have put : (first + n) % 65536 = first + n - 65536 := by omega
    rw [put, mod_eq_of_lt (a := first + n - 65536) (by omega)]
    by_cases above : first + i < 65536
    · rw [mod_eq_of_lt above]
      intro same
      -- the number of indices is a multiple of the size, and the distance of the two items
      have rest : 65536 % size = n - i := by
        have split := div_add_mod (first + i) size
        rw [show 65536 = n - i + size * ((first + i) / size) by omega, add_mul_mod_self_left,
          mod_eq_of_lt (by omega)]
      omega
    · rw [show (first + i) % 65536 = first + i - 65536 by omega, mod_eq_of_lt (by omega)]
      omega

theorem Stores.count (stores : q.Stores items) :
    (q.putIndex - q.getIndex).toNat = items.length := by
  have length := stores.length_le
  have put := stores.putIndex
  have size := q.size.toNat_lt
  have getLt := q.getIndex.toNat_lt
  rw [UInt16.toNat_sub]
  omega

theorem Stores.empty_iff (stores : q.Stores items) : q.getIndex = q.putIndex ↔ items = [] := by
  have length := stores.length_le
  have put := stores.putIndex
  have size := q.size.toNat_lt
  have getLt := q.getIndex.toNat_lt
  rw [← UInt16.toNat_inj, ← length_eq_zero_iff]
  omega

theorem Stores.full_iff (stores : q.Stores items) (clear : q.Clear) :
    q.difference = q.size.toNat ↔ ¬items.length < q.size.toNat := by
  have length := stores.length_le
  have put := stores.putIndex
  have size := q.size.toNat_lt
  rw [Clear, stores.count, le_iff_toNat_le] at clear
  rw [difference]
  omega

theorem Stores.put (stores : q.Stores items) (clear : q.Clear)
    (space : items.length < q.size.toNat) (item : DataItem) :
    (q.put item).Stores (items ++ [item]) := by
  have put := stores.putIndex
  have size := q.size.toNat_lt
  have getLt := q.getIndex.toNat_lt
  rw [Clear, stores.count, le_iff_toNat_le] at clear
  refine ⟨?_, ?_, fun i h => ?_⟩
  · rw [length_append, length_singleton]
    exact space
  · rw [length_append, length_singleton, DataQueue.put, UInt16.toNat_add, put]
    simp only [reduceToNat]
    omega
  · rw [length_append, length_singleton] at h
    dsimp only [DataQueue.put]
    rw [put]
    by_cases old : i < items.length
    · rw [update_of_ne (slot_ne getLt space old (by omega) (by omega)),
        getElem_append_left old, stores.item i old]
    · obtain rfl : i = items.length := by omega
      rw [update_self, getElem_concat_length rfl]

theorem Stores.get {item : DataItem} (stores : q.Stores (item :: items)) :
    q.get.1 = item ∧ q.get.2.Stores items := by
  have length := stores.length_le
  have put := stores.putIndex
  have getLt := q.getIndex.toNat_lt
  rw [length_cons] at length put
  have next : (q.getIndex + 1).toNat = (q.getIndex.toNat + 1) % 65536 := by
    rfl
  refine ⟨?_, by dsimp only [DataQueue.get]; omega, ?_, fun i h => ?_⟩
  · have first := stores.item 0 (by rw [length_cons]; omega)
    rwa [add_zero, mod_eq_of_lt getLt] at first
  · dsimp only [DataQueue.get]
    omega
  · have rest := stores.item (i + 1) (by rw [length_cons]; omega)
    dsimp only [DataQueue.get]
    rw [next, mod_add_mod, add_right_comm, add_assoc]
    exact rest

end DataQueue

/-! ## Runs -/

namespace DataSystem

variable {s : DataSystem} {items : List DataItem}

/-- A push finds the queue clear. -/
def Allowed (s : DataSystem) : Call → Prop
  | .push _ _ => s.dataQueue.Clear
  | .pop _ => True

instance : ∀ s c, Decidable (Allowed s c)
  | _, .push _ _ => inferInstanceAs (Decidable (DataQueue.Clear _))
  | _, .pop _ => .isTrue trivial

theorem size_call (s : DataSystem) (c : Call) : (s.call c).2.dataQueue.size = s.dataQueue.size := by
  cases c with
  | push t item =>
    simp only [call, push]
    split_ifs <;> rfl
  | pop t =>
    simp only [call, pop]
    split_ifs <;> rfl

theorem call_of_stores (stores : s.dataQueue.Stores items) {c : Call} (allowed : Allowed s c) :
    (s.call c).1 = some (fifo s.dataQueue.size.toNat items c).1 ∧
      (s.call c).2.dataQueue.Stores (fifo s.dataQueue.size.toNat items c).2 := by
  cases c with
  | push t item =>
    simp only [call, push, fifo, stores.full_iff allowed]
    by_cases space : items.length < s.dataQueue.size.toNat
    · simp only [not_not.mpr space, if_pos space, if_false]
      exact ⟨rfl, stores.put allowed space item⟩
    · simp only [if_pos space, if_neg space, if_true]
      exact ⟨rfl, stores⟩
  | pop t =>
    simp only [call, pop, stores.empty_iff]
    cases items with
    | nil =>
      exact ⟨rfl, stores⟩
    | cons item items =>
      obtain ⟨first, rest⟩ := stores.get
      rw [if_neg (cons_ne_nil item items)]
      split_ifs
      · exact ⟨by rw [first]; rfl, rest⟩
      · exact ⟨by rw [first]; rfl, rest⟩

/-- While a wrapped index keeps away from the items, a data queue is a queue of at most `size`
items. -/
theorem replies_eq_fifo (kernel : Kernel) (size lwm : UInt16) (queue : ℕ → DataItem)
    {calls : List Call} (allowed : Run.Along (fun s c => (call s c).2) Allowed
      ⟨kernel, .init size lwm queue⟩ calls) :
    replies call ⟨kernel, .init size lwm queue⟩ calls =
      (replies (fifo size.toNat) [] calls).map some := by
  refine Run.Along.replies_eq_map (R := fun s items =>
    s.dataQueue.size = size ∧ s.dataQueue.Stores items) ?_ allowed
    ⟨rfl, DataQueue.stores_init size lwm queue⟩
  rintro s items c allowed ⟨sized, stores⟩
  obtain ⟨reply, stores'⟩ := call_of_stores stores allowed
  rw [sized] at reply stores'
  exact ⟨reply, (size_call s c).trans sized, stores'⟩

theorem replies_eq_fifo_filled :
    replies call ⟨.allReady fun _ => (0, false), .init 2 0 fun _ => ⟨0, 0⟩⟩
        [.push 0 ⟨1, 4⟩, .push 0 ⟨2, 5⟩, .push 1 ⟨3, 6⟩, .pop 1, .pop 1, .pop 1] =
      [some ⟨.ok, none⟩, some ⟨.ok, none⟩, some ⟨.timeout, none⟩, some ⟨.ok, some ⟨1, 4⟩⟩,
        some ⟨.ok, some ⟨2, 5⟩⟩, some ⟨.timeout, none⟩] :=
  (replies_eq_fifo _ _ _ _ (by decide +kernel)).trans (by decide)

/-- Pushes and pops in turn. -/
def rounds (n : ℕ) : List Call := (List.replicate n [.push 0 ⟨0, 0⟩, .pop 0]).flatten

theorem round_of_empty (s : DataSystem) (sized : s.dataQueue.size = 1)
    (empty : s.dataQueue.getIndex = s.dataQueue.putIndex) :
    let s' := ((s.call (.push 0 ⟨0, 0⟩)).2.call (.pop 0)).2
    s'.dataQueue.size = 1 ∧ s'.dataQueue.getIndex = s.dataQueue.getIndex + 1 ∧
      s'.dataQueue.putIndex = s.dataQueue.putIndex + 1 := by
  have notFull : ¬s.dataQueue.difference = s.dataQueue.size.toNat := by
    rw [DataQueue.difference, empty, sized, sub_self]
    decide
  have notEmpty : ¬s.dataQueue.getIndex = s.dataQueue.putIndex + 1 := by
    rw [empty]
    generalize s.dataQueue.putIndex = index
    intro same
    have values := congrArg toNat same
    rw [UInt16.toNat_add] at values
    simp only [reduceToNat] at values
    omega
  simp only [call, push, if_neg notFull, pop, DataQueue.put, if_neg notEmpty, DataQueue.get]
  split_ifs
  · exact ⟨sized, rfl, rfl⟩
  · exact ⟨sized, rfl, rfl⟩

theorem run_rounds (n : ℕ) (s : DataSystem) (sized : s.dataQueue.size = 1)
    (empty : s.dataQueue.getIndex = s.dataQueue.putIndex) :
    let s' := run (fun s c => (call s c).2) s (rounds n)
    s'.dataQueue.size = 1 ∧ s'.dataQueue.getIndex = s.dataQueue.getIndex + UInt16.ofNat n ∧
      s'.dataQueue.putIndex = s.dataQueue.putIndex + UInt16.ofNat n := by
  induction n generalizing s with
  | zero => exact ⟨sized, (UInt16.add_zero _).symm, (UInt16.add_zero _).symm⟩
  | succ n ih =>
    obtain ⟨sized', get, put⟩ := round_of_empty s sized empty
    obtain ⟨sized'', get', put'⟩ := ih _ sized' (by rw [get, put, empty])
    have next : UInt16.ofNat (n + 1) = 1 + UInt16.ofNat n := by
      rw [UInt16.ofNat_add, UInt16.add_comm]
      rfl
    rw [next, ← UInt16.add_assoc, ← UInt16.add_assoc, ← get, ← put]
    exact ⟨sized'', get', put'⟩

theorem run_fifo_rounds (n : ℕ) :
    run (fun items c => (fifo 1 items c).2) [] (rounds n) = [] := by
  induction n with
  | zero => rfl
  | succ n ih => exact ih

theorem replies_rounds_ne {n : ℕ} (last : UInt16.ofNat n = 65535) (kernel : Kernel) :
    replies call ⟨kernel, .init 1 0 fun _ => ⟨0, 0⟩⟩
        (rounds n ++ [.push 0 ⟨1, 4⟩, .push 0 ⟨2, 5⟩]) ≠
      (replies (fifo 1) [] (rounds n ++ [.push 0 ⟨1, 4⟩, .push 0 ⟨2, 5⟩])).map some := by
  obtain ⟨sized, get, put⟩ := run_rounds n ⟨kernel, .init 1 0 fun _ => ⟨0, 0⟩⟩ rfl rfl
  rw [last] at get put
  rw [replies_append, replies_append, run_fifo_rounds, map_append]
  generalize run _ _ (rounds n) = s at sized get put
  replace get : s.dataQueue.getIndex = 65535 := get.trans (UInt16.zero_add _)
  replace put : s.dataQueue.putIndex = 65535 := put.trans (UInt16.zero_add _)
  have first : ¬s.dataQueue.difference = s.dataQueue.size.toNat := by
    rw [DataQueue.difference, sized, get, put]
    decide
  have second : ¬(s.dataQueue.put ⟨1, 4⟩).difference = (s.dataQueue.put ⟨1, 4⟩).size.toNat := by
    dsimp only [DataQueue.difference, DataQueue.put]
    rw [sized, get, put]
    decide
  intro same
  have pushes := append_inj_right' same rfl
  simp only [replies, call, push, if_neg first, if_neg second, Option.map_some] at pushes
  exact absurd pushes (by decide)

/-- After 65535 items have gone through a queue for one item, it takes two. -/
theorem two_items_in_queue_of_one :
    replies call ⟨.allReady fun _ => (0, false), .init 1 0 fun _ => ⟨0, 0⟩⟩
        (rounds 65535 ++ [.push 0 ⟨1, 4⟩, .push 0 ⟨2, 5⟩]) ≠
      (replies (fifo 1) [] (rounds 65535 ++ [.push 0 ⟨1, 4⟩, .push 0 ⟨2, 5⟩])).map some :=
  replies_rounds_ne (by decide) _

end DataSystem

end Tm4cPilot.Rtt
