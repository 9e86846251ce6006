import Tm4cPilot.Lib.LinkedList
import Tm4cPilot.Lib.UrgentQueue
import Tm4cPilot.Rtt.Mailbox

/-!
# RT-Thread message queues

A sender takes a block from the free list, fills it with interrupts enabled, and links it; a
receiver unlinks a block, copies it with interrupts enabled, and frees it.  Any other calls can come
in between.
-/

namespace Tm4cPilot.Rtt

open Function Option Run Nat

/-- `struct rt_messagequeue`, with numbered blocks. -/
structure MessageQueue where
  next : ℕ → Option ℕ
  data : ℕ → ℕ → UInt8
  msgSize : UInt16
  maxMsgs : UInt16
  entry : UInt16
  msgQueueHead : Option ℕ
  msgQueueTail : Option ℕ
  msgQueueFree : Option ℕ
  flag : IpcFlag

namespace MessageQueue

variable (mq : MessageQueue)

/-- A block is put on the free list. -/
def putFree (msg : ℕ) : MessageQueue :=
  { mq with
    next := update mq.next msg mq.msgQueueFree
    msgQueueFree := some msg }

/-- `rt_mq_init`, with an alignment of four. -/
def init (next : ℕ → Option ℕ) (data : ℕ → ℕ → UInt8) (msgSize poolSize : UInt32) (flag : IpcFlag) :
    MessageQueue :=
  let msgSize := ((msgSize + 4 - 1) &&& ~~~(4 - 1)).toUInt16
  let maxMsgs := (poolSize / (msgSize.toUInt32 + 4)).toUInt16
  (List.range maxMsgs.toNat).foldl putFree
    ⟨next, data, msgSize, maxMsgs, 0, none, none, none, flag⟩

/-- A block of the free list. -/
def getFree : Option (ℕ × MessageQueue) :=
  mq.msgQueueFree.map fun msg => (msg, { mq with msgQueueFree := mq.next msg })

/-- The message is copied, and `rt_mq_send` resets the pointer. -/
def fill (urgent : Bool) (msg : ℕ) (buffer : List UInt8) : MessageQueue :=
  { mq with
    next := if urgent then mq.next else update mq.next msg none
    data := update mq.data msg fun i => buffer.getD i (mq.data msg i) }

/-- A block goes to the end of the queue. -/
def linkTail (msg : ℕ) : MessageQueue :=
  { mq with
    next := mq.msgQueueTail.elim mq.next fun tail => update mq.next tail (some msg)
    msgQueueTail := some msg
    msgQueueHead := if mq.msgQueueHead = none then some msg else mq.msgQueueHead
    entry := mq.entry + 1 }

/-- A block goes to the front, as in `rt_mq_urgent`. -/
def linkHead (msg : ℕ) : MessageQueue :=
  { mq with
    next := update mq.next msg mq.msgQueueHead
    msgQueueHead := some msg
    msgQueueTail := if mq.msgQueueTail = none then some msg else mq.msgQueueTail
    entry := mq.entry + 1 }

@[inherit_doc linkTail]
def link (urgent : Bool) (msg : ℕ) : MessageQueue :=
  if urgent then mq.linkHead msg else mq.linkTail msg

/-- The first message is unlinked. -/
def unlink (msg : ℕ) : MessageQueue :=
  { mq with
    msgQueueHead := mq.next msg
    msgQueueTail := if mq.msgQueueTail = some msg then none else mq.msgQueueTail }

/-- The message is copied. -/
def copy (msg : ℕ) (size : ℕ) : List UInt8 :=
  (List.range (if mq.msgSize.toNat < size then mq.msgSize.toNat else size)).map (mq.data msg)

/-- The loop of a reset. -/
def release : ℕ → MessageQueue → MessageQueue
  | 0, mq => mq
  | rounds + 1, mq =>
    match mq.msgQueueHead with
    | none => mq
    | some msg => release rounds ((mq.unlink msg).putFree msg)

end MessageQueue

/-- `rt_ipc_list_resume_all`, with a bound for its rounds. -/
def Kernel.ipcListResumeAll (object : ℕ) : ℕ → Kernel → Kernel
  | 0, k => k
  | rounds + 1, k =>
    match k.list (.suspend object) with
    | [] => k
    | t :: _ =>
      let k := k.modify t fun thread => { thread with error := .error }
      ipcListResumeAll object rounds (k.threadResume t).1

/-- Where a thread is, with the local variables of the call. -/
inductive MqCall where
  | idle
  /-- A sender has a block, and copies the message to it. -/
  | filling (urgent : Bool) (msg : ℕ) (buffer : List UInt8)
  | filled (urgent : Bool) (msg : ℕ)
  | waiting (size : ℕ) (timeout : Int32) (tickDelta : UInt32)
  /-- A receiver has a block, and copies the message from it. -/
  | emptying (msg : ℕ) (size : ℕ)
  | emptied (msg : ℕ) (buffer : List UInt8)
  deriving DecidableEq, Repr

/-- The block of a call. -/
def MqCall.msg : MqCall → Option ℕ
  | .idle => none
  | .filling _ msg _ => some msg
  | .filled _ msg => some msg
  | .waiting _ _ _ => none
  | .emptying msg _ => some msg
  | .emptied msg _ => some msg

/-- The kernel and the queue. -/
structure Messages where
  kernel : Kernel
  queue : MessageQueue
  tick : UInt32
  call : Tid → MqCall

namespace Messages

variable (s : Messages)

/-- Where a thread is. -/
def setCall (t : Tid) (call : MqCall) : Messages :=
  { s with call := update s.call t call }

/-- The first section of `rt_mq_send` and `rt_mq_urgent`. -/
def mqSend (t : Tid) (urgent : Bool) (buffer : List UInt8) : Messages × Option Reply :=
  if s.queue.msgSize.toNat < buffer.length then (s, some (.error .error))
  else
    match s.queue.getFree with
    | none => (s, some .full)
    | some (msg, queue) => ({ s with queue }.setCall t (.filling urgent msg buffer), none)

/-- The end of a send. -/
def mqSendLink (t : Tid) (urgent : Bool) (msg : ℕ) : Messages × Option Reply :=
  let kernel := if s.kernel.list (.suspend suspendThread) ≠ []
    then s.kernel.ipcListResume suspendThread else s.kernel
  ({ s with kernel, queue := s.queue.link urgent msg }.setCall t .idle, some (.error .ok))

/-- The loop of `rt_mq_recv`, to the switch or the copy. -/
def mqRecvLoop (t : Tid) (size : ℕ) (timeout : Int32) (tickDelta : UInt32) :
    Messages × Option Reply :=
  if s.queue.entry = 0 then
    if timeout = 0 then
      let kernel := s.kernel.modify t fun thread => { thread with error := .timeout }
      ({ s with kernel }.setCall t .idle, some (.error .timeout))
    else
      let kernel := s.kernel.ipcWait suspendThread t s.queue.flag timeout.toInt
      ({ s with kernel }.setCall t (.waiting size timeout (if 0 < timeout then s.tick else tickDelta)),
        none)
  else
    match s.queue.msgQueueHead with
    -- not reached: there is a head when `entry` is not zero
    | none => (s, none)
    | some msg =>
      let queue := s.queue.unlink msg
      ({ s with queue := { queue with entry := queue.entry - 1 } }.setCall t (.emptying msg size), none)

/-- `rt_mq_recv`, up to the first switch or the copy. -/
def mqRecv (t : Tid) (size : ℕ) (timeout : Int32) : Messages × Option Reply :=
  if s.queue.entry = 0 ∧ timeout = 0 then (s, some (.error .timeout))
  else s.mqRecvLoop t size timeout 0

/-- The receiver runs again. -/
def mqRecvResumed (t : Tid) (size : ℕ) (timeout : Int32) (tickDelta : UInt32) :
    Messages × Option Reply :=
  if (s.kernel.thread t).error ≠ .ok then
    (s.setCall t .idle, some (.error (s.kernel.thread t).error))
  else s.mqRecvLoop t size (recalculate timeout tickDelta s.tick) (s.tick - tickDelta)

/-- The second section of `rt_mq_recv`. -/
def mqRecvFree (t : Tid) (msg : ℕ) : Messages × Option Reply :=
  ({ s with queue := s.queue.putFree msg }.setCall t .idle, some (.error .ok))

/-- `rt_mq_control` with `RT_IPC_CMD_RESET`. -/
def mqReset : Messages × Option Reply :=
  let kernel := s.kernel.ipcListResumeAll suspendThread
    (s.kernel.list (.suspend suspendThread)).length
  let queue := s.queue.release s.queue.maxMsgs.toNat
  ({ s with kernel, queue := { queue with entry := 0 } }, some (.error .ok))

end Messages

/-- The queue, the messages linked and received, and the last `item` of each block. -/
structure Traffic where
  messages : Messages
  log : UrgentQueue.Log (ℕ → UInt8)
  item : ℕ → UrgentQueue.Item (ℕ → UInt8)

inductive Traffic.Event where
  | send (t : Tid) (urgent : Bool) (buffer : List UInt8)
  | recv (t : Tid) (size : ℕ) (timeout : Int32)
  /-- A thread copies its message, with interrupts enabled. -/
  | copy (t : Tid)
  /-- The second section of a call. -/
  | finish (t : Tid)
  | resume (t : Tid)
  | timeout (t : Tid)
  | reset (t : Tid)
  | tick
  deriving DecidableEq, Repr

namespace Traffic

variable (p : Traffic)

/-- The thread can call. -/
def Idle (t : Tid) : Prop :=
  (p.messages.kernel.thread t).stat = .ready ∧ p.messages.call t = .idle
deriving Decidable

/-- A receive is recorded. -/
def recordRecv (t : Tid) (result : Messages × Option Reply) : Traffic :=
  match result.1.call t with
  | .emptying _ _ => { p with messages := result.1, log := p.log.take }
  | _ => { p with messages := result.1 }

/-- A send is recorded. -/
def recordLink (urgent : Bool) (msg : ℕ) (result : Messages × Option Reply) : Traffic where
  messages := result.1
  log := p.log.link urgent (p.messages.queue.data msg)
  item := update p.item msg (p.log.item urgent (p.messages.queue.data msg))

def step : Event → Option Traffic
  | .send t urgent buffer =>
    if p.Idle t then some { p with messages := (p.messages.mqSend t urgent buffer).1 } else none
  | .recv t size timeout =>
    if p.Idle t then some (p.recordRecv t (p.messages.mqRecv t size timeout)) else none
  | .copy t =>
    if (p.messages.kernel.thread t).stat = .ready then
      match p.messages.call t with
      | .filling urgent msg buffer =>
        let queue := p.messages.queue.fill urgent msg buffer
        some { p with messages := { p.messages with queue }.setCall t (.filled urgent msg) }
      | .emptying msg size =>
        let buffer := p.messages.queue.copy msg size
        some { p with messages := p.messages.setCall t (.emptied msg buffer) }
      | _ => none
    else none
  | .finish t =>
    if (p.messages.kernel.thread t).stat = .ready then
      match p.messages.call t with
      | .filled urgent msg => some (p.recordLink urgent msg (p.messages.mqSendLink t urgent msg))
      | .emptied msg _ => some { p with messages := (p.messages.mqRecvFree t msg).1 }
      | _ => none
    else none
  | .resume t =>
    if (p.messages.kernel.thread t).stat = .ready then
      match p.messages.call t with
      | .waiting size timeout tickDelta =>
        some (p.recordRecv t (p.messages.mqRecvResumed t size timeout tickDelta))
      | _ => none
    else none
  | .timeout t =>
    (p.messages.kernel.expires t).map fun kernel => { p with messages := { p.messages with kernel } }
  | .reset t =>
    if p.Idle t then some { p with messages := p.messages.mqReset.1, log := p.log.clear } else none
  | .tick => some { p with messages := { p.messages with tick := p.messages.tick + 1 } }

def start (kernel : Kernel) (queue : MessageQueue) (tick : UInt32)
    (item : ℕ → UrgentQueue.Item (ℕ → UInt8)) : Traffic where
  messages := ⟨kernel, queue, tick, fun _ => .idle⟩
  log := .empty
  item := item

end Traffic

/-! ## The pool -/

/-- Each block is in one list or with one thread. -/
structure Partition (count : ℕ) (lists : List ℕ) (held : Tid → Option ℕ) : Prop where
  nodup : lists.Nodup
  apart : ∀ t b, held t = some b → b ∉ lists
  alone : ∀ t u b, held t = some b → held u = some b → t = u
  blocks : ∀ b, b < count ↔ b ∈ lists ∨ ∃ t, held t = some b

namespace Partition

variable {count : ℕ} {lists lists' : List ℕ} {held : Tid → Option ℕ} {t : Tid} {b : ℕ}

theorem perm (partition : Partition count lists held) (perm : lists.Perm lists') :
    Partition count lists' held := by
  refine ⟨perm.nodup_iff.mp partition.nodup, fun t b isHeld => ?_, partition.alone, fun b => ?_⟩
  · rw [← perm.mem_iff]
    exact partition.apart t b isHeld
  · rw [← perm.mem_iff]
    exact partition.blocks b

theorem take (partition : Partition count (b :: lists) held) (none : held t = none) :
    Partition count lists (update held t (some b)) := by
  obtain ⟨fresh, nodup⟩ := List.nodup_cons.mp partition.nodup
  have other (u : Tid) (isHeld : held u = some b) : False :=
    partition.apart u b isHeld List.mem_cons_self
  refine ⟨nodup, fun u c isHeld => ?_, fun u v c heldU heldV => ?_, fun c => ?_⟩
  · by_cases same : u = t
    · subst same
      rw [update_self, some.injEq] at isHeld
      exact isHeld ▸ fresh
    · rw [update_of_ne same] at isHeld
      exact fun inLists => partition.apart u c isHeld (List.mem_cons_of_mem b inLists)
  · simp only [update_apply] at heldU heldV
    split_ifs at heldU heldV with isU isV isV
    · rw [isU, isV]
    · cases heldU
      exact (other v heldV).elim
    · cases heldV
      exact (other u heldU).elim
    · exact partition.alone u v c heldU heldV
  · rw [partition.blocks c, List.mem_cons]
    constructor
    · rintro ((rfl | inLists) | ⟨u, isHeld⟩)
      · exact .inr ⟨t, update_self ..⟩
      · exact .inl inLists
      · refine .inr ⟨u, ?_⟩
        rw [update_of_ne (by rintro rfl; simp [none] at isHeld), isHeld]
    · rintro (inLists | ⟨u, isHeld⟩)
      · exact .inl (.inr inLists)
      · by_cases same : u = t
        · subst same
          rw [update_self, some.injEq] at isHeld
          exact .inl (.inl isHeld.symm)
        · rw [update_of_ne same] at isHeld
          exact .inr ⟨u, isHeld⟩

theorem give (partition : Partition count lists held) (isHeld : held t = some b) :
    Partition count (b :: lists) (update held t none) := by
  have others (u : Tid) (c : ℕ) : update held t none u = some c ↔ u ≠ t ∧ held u = some c := by
    by_cases same : u = t <;> simp [same]
  refine ⟨List.nodup_cons.mpr ⟨partition.apart t b isHeld, partition.nodup⟩, fun u c isHeldU => ?_,
    fun u v c heldU heldV => ?_, fun c => ?_⟩
  · obtain ⟨ne, heldU⟩ := (others u c).mp isHeldU
    rw [List.mem_cons, not_or]
    refine ⟨?_, partition.apart u c heldU⟩
    rintro rfl
    exact ne (partition.alone u t c heldU isHeld)
  · exact partition.alone u v c ((others u c).mp heldU).2 ((others v c).mp heldV).2
  · rw [partition.blocks c, List.mem_cons]
    constructor
    · rintro (inLists | ⟨u, heldU⟩)
      · exact .inl (.inr inLists)
      · by_cases same : u = t
        · subst same
          exact .inl (.inl (some.inj (heldU.symm.trans isHeld)))
        · exact .inr ⟨u, (others u c).mpr ⟨same, heldU⟩⟩
    · rintro ((rfl | inLists) | ⟨u, heldU⟩)
      · exact .inr ⟨t, isHeld⟩
      · exact .inl inLists
      · exact .inr ⟨u, ((others u c).mp heldU).2⟩

theorem length_le (partition : Partition count lists held) : lists.length ≤ count := by
  have inside : lists ⊆ List.range count :=
    fun b inLists => List.mem_range.mpr ((partition.blocks b).mpr (.inl inLists))
  simpa using (partition.nodup.subperm inside).length_le

end Partition

namespace MessageQueue

open LinkedList

variable {mq : MessageQueue} {free queue : List ℕ} {b : ℕ}

/-- The lists are chains of blocks. -/
structure Linked (mq : MessageQueue) (free queue : List ℕ) : Prop where
  free : Chain mq.next mq.msgQueueFree free
  queue : Queue mq.next mq.msgQueueHead mq.msgQueueTail queue

namespace Linked

theorem putFree (linked : mq.Linked free queue) (absent : b ∉ free ++ queue) :
    (mq.putFree b).Linked (b :: free) queue := by
  rw [List.mem_append, not_or] at absent
  exact ⟨linked.free.push absent.1, linked.queue.write absent.2 _⟩

theorem getFree (linked : mq.Linked (b :: free) queue) :
    mq.getFree = some (b, { mq with msgQueueFree := mq.next b }) ∧
      Linked { mq with msgQueueFree := mq.next b } free queue := by
  refine ⟨?_, linked.free.2, linked.queue⟩
  rw [MessageQueue.getFree, linked.free.1]
  rfl

theorem getFree_none (linked : mq.Linked [] queue) : mq.getFree = none := by
  rw [MessageQueue.getFree, show mq.msgQueueFree = none from linked.free]
  rfl

theorem fill (linked : mq.Linked free queue) (absent : b ∉ free ++ queue) (urgent : Bool)
    (buffer : List UInt8) : (mq.fill urgent b buffer).Linked free queue := by
  rw [List.mem_append, not_or] at absent
  cases urgent with
  | true => exact ⟨linked.free, linked.queue⟩
  | false => exact ⟨linked.free.write absent.1 _, linked.queue.write absent.2 _⟩

theorem linkHead (linked : mq.Linked free queue) (absent : b ∉ free ++ queue) :
    (mq.linkHead b).Linked free (b :: queue) := by
  rw [List.mem_append, not_or] at absent
  exact ⟨linked.free.write absent.1 _, linked.queue.push absent.2⟩

theorem linkTail (linked : mq.Linked free queue) (nodup : (free ++ queue).Nodup)
    (absent : b ∉ free ++ queue) (last : mq.next b = none) :
    (mq.linkTail b).Linked free (queue ++ [b]) := by
  rw [List.mem_append, not_or] at absent
  refine ⟨?_, linked.queue.append last absent.2⟩
  show Chain (mq.msgQueueTail.elim _ _) mq.msgQueueFree free
  cases isTail : mq.msgQueueTail with
  | none => exact linked.free
  | some tail =>
    have inQueue : tail ∈ queue := List.mem_of_getLast? (linked.queue.last ▸ isTail)
    refine linked.free.write (fun inFree => ?_) _
    exact (List.nodup_append.mp nodup).2.2 tail inFree tail inQueue rfl

theorem unlink (linked : mq.Linked free (b :: queue)) :
    mq.msgQueueHead = some b ∧ (mq.unlink b).Linked free queue :=
  ⟨linked.queue.pop.1, linked.free, linked.queue.pop.2⟩

theorem release {rounds : ℕ} (linked : mq.Linked free queue) (nodup : (free ++ queue).Nodup)
    (enough : queue.length ≤ rounds) :
    (MessageQueue.release rounds mq).Linked (queue.reverse ++ free) [] ∧
      ∀ b ∉ queue, (MessageQueue.release rounds mq).next b = mq.next b := by
  induction rounds generalizing mq free queue with
  | zero =>
    obtain rfl : queue = [] := List.length_eq_zero_iff.mp (le_zero.mp enough)
    exact ⟨linked, fun _ _ => rfl⟩
  | succ rounds ih =>
    rw [MessageQueue.release]
    cases queue with
    | nil =>
      rw [show mq.msgQueueHead = none from linked.queue.chain]
      exact ⟨linked, fun _ _ => rfl⟩
    | cons b queue =>
      have moved : (b :: (free ++ queue)).Nodup := List.perm_middle.nodup_iff.mp nodup
      obtain ⟨isHead, unlinked⟩ := linked.unlink
      rw [isHead, List.reverse_cons, List.append_assoc]
      obtain ⟨released, kept⟩ :=
        ih (unlinked.putFree (List.nodup_cons.mp moved).1) moved (le_of_succ_le_succ enough)
      refine ⟨released, fun c absent => ?_⟩
      rw [List.mem_cons, not_or] at absent
      exact (kept c absent.2).trans (update_of_ne absent.1 _ _)

end Linked

/-! ### What the operations leave alone -/

theorem link_frame (mq : MessageQueue) (urgent : Bool) (msg : ℕ) :
    (mq.link urgent msg).data = mq.data ∧ (mq.link urgent msg).maxMsgs = mq.maxMsgs ∧
      (mq.link urgent msg).msgSize = mq.msgSize ∧ (mq.link urgent msg).entry = mq.entry + 1 := by
  cases urgent <;> exact ⟨rfl, rfl, rfl, rfl⟩

theorem Linked.link_next (linked : mq.Linked free queue) (urgent : Bool) {msg : ℕ} (other : b ≠ msg)
    (absent : b ∉ queue) : (mq.link urgent msg).next b = mq.next b := by
  cases urgent with
  | true => exact update_of_ne other _ _
  | false =>
    show mq.msgQueueTail.elim mq.next _ b = _
    cases isTail : mq.msgQueueTail with
    | none => rfl
    | some tail =>
      have inQueue : tail ∈ queue := List.mem_of_getLast? (linked.queue.last ▸ isTail)
      have ne : b ≠ tail := by
        rintro rfl
        exact absent inQueue
      exact update_of_ne ne _ _

theorem release_frame (mq : MessageQueue) (rounds : ℕ) :
    (release rounds mq).data = mq.data ∧ (release rounds mq).maxMsgs = mq.maxMsgs ∧
      (release rounds mq).msgSize = mq.msgSize := by
  induction rounds generalizing mq with
  | zero => exact ⟨rfl, rfl, rfl⟩
  | succ rounds ih =>
    rw [release]
    split
    · exact ⟨rfl, rfl, rfl⟩
    · exact ih _

theorem linked_init (next : ℕ → Option ℕ) (data : ℕ → ℕ → UInt8) (msgSize poolSize : UInt32)
    (flag : IpcFlag) :
    (init next data msgSize poolSize flag).Linked
        (List.range (init next data msgSize poolSize flag).maxMsgs.toNat).reverse [] ∧
      (init next data msgSize poolSize flag).entry = 0 := by
  have loop (mq : MessageQueue) (empty : mq.Linked [] []) (count : ℕ) :
      ((List.range count).foldl MessageQueue.putFree mq).Linked (List.range count).reverse [] ∧
      ((List.range count).foldl MessageQueue.putFree mq).entry = mq.entry ∧
      ((List.range count).foldl MessageQueue.putFree mq).maxMsgs = mq.maxMsgs := by
    induction count with
    | zero => exact ⟨empty, rfl, rfl⟩
    | succ count ih =>
      obtain ⟨linked, entry, maxMsgs⟩ := ih
      rw [List.range_succ, List.foldl_append, List.reverse_append]
      exact ⟨linked.putFree (by simp), entry, maxMsgs⟩
  obtain ⟨linked, entry, maxMsgs⟩ := loop ⟨next, data, _, _, 0, none, none, none, flag⟩
    ⟨rfl, queue_nil⟩ _
  exact ⟨by rw [init, maxMsgs]; exact linked, entry⟩

end MessageQueue

theorem Kernel.Parked.wakeFirst {k : Kernel} (parked : k.Parked) (m : ℕ) :
    (if k.list (.suspend m) ≠ [] then k.ipcListResume m else k).Parked := by
  split_ifs with waits
  · rw [Kernel.ipcListResume]
    obtain ⟨t, threads, queue⟩ := List.exists_cons_of_ne_nil waits
    rw [queue]
    exact parked.wakes (Kernel.wakes_threadResume
      (parked.suspended m t (queue ▸ List.mem_cons_self)))
  · exact parked

theorem Kernel.Parked.ipcListResumeAll {k : Kernel} (parked : k.Parked) {object rounds : ℕ}
    (enough : (k.list (.suspend object)).length ≤ rounds) :
    (k.ipcListResumeAll object rounds).Parked ∧
      (k.ipcListResumeAll object rounds).list (.suspend object) = [] := by
  induction rounds generalizing k with
  | zero => exact ⟨parked, List.length_eq_zero_iff.mp (le_zero.mp enough)⟩
  | succ rounds ih =>
    rw [Kernel.ipcListResumeAll]
    cases queue : k.list (.suspend object) with
    | nil => exact ⟨parked, queue⟩
    | cons t threads =>
      have suspended := parked.suspended object t (queue ▸ List.mem_cons_self)
      have changed : (k.modify t fun thread => { thread with error := .error }).Parked :=
        parked.modify t rfl
      have wakes := Kernel.wakes_threadResume
        (k := k.modify t fun thread => { thread with error := .error }) (t := t)
        (by simpa using suspended)
      refine ih (changed.wakes wakes) ?_
      have list := wakes.list object
      rw [show (k.modify t fun thread => { thread with error := .error }).list (.suspend object) =
        t :: threads from queue, List.erase_cons_head] at list
      rw [list]
      rw [queue] at enough
      exact le_of_succ_le_succ enough

/-! ## The steps -/

namespace Traffic

open MessageQueue

open scoped List

/-- The blocks of the calls. -/
def held (call : Tid → MqCall) : Tid → Option ℕ := fun t => (call t).msg

theorem held_update (call : Tid → MqCall) (t : Tid) (c : MqCall) :
    held (update call t c) = update (held call) t c.msg := by
  funext u
  by_cases same : u = t <;> simp [held, same]

theorem held_update_of_same (call : Tid → MqCall) {t : Tid} {c : MqCall} (same : c.msg = (call t).msg) :
    held (update call t c) = held call := by
  rw [held_update, same]
  exact update_eq_self t (held call)

/-- Pointers are reset, and messages copied as taken. -/
def Intact (mq : MessageQueue) (item : ℕ → UrgentQueue.Item (ℕ → UInt8))
    (taken : List (UrgentQueue.Item (ℕ → UInt8))) : MqCall → Prop
  | .filled urgent msg => urgent = false → mq.next msg = none
  | .emptying msg _ => item msg ∈ taken ∧ (item msg).value = mq.data msg
  | .emptied msg buffer => item msg ∈ taken ∧ buffer <+: (List.range mq.msgSize.toNat).map (item msg).value
  | _ => True

/-- What every event keeps. -/
structure Valid (p : Traffic) (free queue : List ℕ) : Prop where
  linked : p.messages.queue.Linked free queue
  partition : Partition p.messages.queue.maxMsgs.toNat (free ++ queue) (held p.messages.call)
  entry : p.messages.queue.entry.toNat = queue.length
  stored : queue.map p.item = p.log.queue
  value : ∀ b ∈ queue, (p.item b).value = p.messages.queue.data b
  intact : ∀ t, Intact p.messages.queue p.item p.log.taken (p.messages.call t)
  ordered : p.log.Ordered
  parked : p.messages.kernel.Parked

variable {p p' : Traffic} {free queue : List ℕ} {t : Tid} {mq mq' : MessageQueue}
  {item item' : ℕ → UrgentQueue.Item (ℕ → UInt8)}
  {taken taken' : List (UrgentQueue.Item (ℕ → UInt8))} {call : Tid → MqCall}

theorem Intact.of_same {c : MqCall} (intact : Intact mq item taken c)
    (same : ∀ b, c.msg = some b → mq'.next b = mq.next b ∧ mq'.data b = mq.data b ∧ item' b = item b)
    (size : mq'.msgSize = mq.msgSize) (more : taken ⊆ taken') : Intact mq' item' taken' c := by
  cases c with
  | filled urgent msg =>
    intro ordinary
    rw [(same msg rfl).1]
    exact intact ordinary
  | emptying msg length =>
    obtain ⟨-, data, isItem⟩ := same msg rfl
    rw [Intact, isItem, data]
    exact ⟨more intact.1, intact.2⟩
  | emptied msg buffer =>
    obtain ⟨-, -, isItem⟩ := same msg rfl
    rw [Intact, isItem, size]
    exact ⟨more intact.1, intact.2⟩
  | idle => trivial
  | filling urgent msg buffer => trivial
  | waiting length timeout tickDelta => trivial

theorem Intact.update (intact : ∀ u, Intact mq item taken (call u)) {c : MqCall}
    (own : Intact mq' item' taken' c) (same : ∀ u, u ≠ t → ∀ b, (call u).msg = some b →
    mq'.next b = mq.next b ∧ mq'.data b = mq.data b ∧ item' b = item b)
    (size : mq'.msgSize = mq.msgSize) (more : taken ⊆ taken') (u : Tid) :
    Intact mq' item' taken' (update call t c u) := by
  by_cases here : u = t
  · subst here
    rwa [update_self]
  · rw [update_of_ne here]
    exact (intact u).of_same (same u here) size more

section

variable (valid : p.Valid free queue)
include valid

theorem Valid.send (idle : p.Idle t) (urgent : Bool) (buffer : List UInt8) :
    ∃ free, Valid { p with messages := (p.messages.mqSend t urgent buffer).1 } free queue := by
  unfold Messages.mqSend
  split_ifs with tooLong
  · exact ⟨free, valid⟩
  cases free with
  | nil =>
    rw [valid.linked.getFree_none]
    exact ⟨[], valid⟩
  | cons b free =>
    obtain ⟨isFree, linked⟩ := valid.linked.getFree
    have none : held p.messages.call t = none := by rw [held, idle.2]; rfl
    rw [isFree]
    refine ⟨free, linked, ?_, valid.entry, valid.stored, valid.value, ?_, valid.ordered,
      valid.parked⟩
    · simp only [Messages.setCall, held_update]
      exact valid.partition.take none
    · exact Intact.update valid.intact trivial (fun _ _ _ _ => ⟨rfl, rfl, rfl⟩) rfl (List.Subset.refl _)

variable {msg : ℕ}

theorem Valid.other (own : (p.messages.call t).msg = some msg) {u : Tid} (ne : u ≠ t)
    {b : ℕ} (isHeld : (p.messages.call u).msg = some b) : b ≠ msg := by
  rintro rfl
  exact ne (valid.partition.alone u t b isHeld own)

theorem Valid.fill {urgent : Bool} {buffer : List UInt8}
    (isCall : p.messages.call t = .filling urgent msg buffer) :
    Valid { p with
      messages := { p.messages with queue := p.messages.queue.fill urgent msg buffer }.setCall t
        (.filled urgent msg) } free queue := by
  have own : (p.messages.call t).msg = some msg := by rw [isCall]; rfl
  have absent := valid.partition.apart t msg own
  refine ⟨valid.linked.fill absent urgent buffer, ?_, valid.entry, valid.stored, fun b inQueue => ?_,
    Intact.update valid.intact ?_ (fun u ne b isHeld => ?_) rfl (List.Subset.refl _), valid.ordered,
    valid.parked⟩
  · rw [Messages.setCall, held_update_of_same _ (by rw [own]; rfl)]
    exact valid.partition
  · have ne : b ≠ msg := by
      rintro rfl
      exact absent (List.mem_append_right _ inQueue)
    rw [valid.value b inQueue]
    exact (update_of_ne ne _ _).symm
  · rintro rfl
    exact update_self ..
  · have other := valid.other own ne isHeld
    refine ⟨?_, update_of_ne other _ _, rfl⟩
    cases urgent with
    | true => rfl
    | false => exact update_of_ne other _ _

theorem Valid.copy {size : ℕ} (isCall : p.messages.call t = .emptying msg size) :
    Valid { p with
      messages := p.messages.setCall t (.emptied msg (p.messages.queue.copy msg size)) } free queue := by
  have own : (p.messages.call t).msg = some msg := by rw [isCall]; rfl
  have taken := valid.intact t
  rw [isCall] at taken
  refine ⟨valid.linked, ?_, valid.entry, valid.stored, valid.value,
    Intact.update valid.intact ⟨taken.1, ?_⟩ (fun _ _ _ _ => ⟨rfl, rfl, rfl⟩) rfl
      (List.Subset.refl _), valid.ordered, valid.parked⟩
  · rw [Messages.setCall, held_update_of_same _ (by rw [own]; rfl)]
    exact valid.partition
  · rw [taken.2, MessageQueue.copy]
    refine List.IsPrefix.map _ ?_
    show _ <+: List.range p.messages.queue.msgSize.toNat
    rw [List.prefix_iff_eq_take, List.length_range, List.take_range]
    congr 1
    split_ifs <;> omega

theorem Valid.link {urgent : Bool} (isCall : p.messages.call t = .filled urgent msg) :
    (p.recordLink urgent msg (p.messages.mqSendLink t urgent msg)).Valid free
      (if urgent then msg :: queue else queue ++ [msg]) := by
  have own : (p.messages.call t).msg = some msg := by rw [isCall]; rfl
  have absent := valid.partition.apart t msg own
  obtain ⟨data, maxMsgs, msgSize, entry⟩ := link_frame p.messages.queue urgent msg
  have perm : (free ++ if urgent then msg :: queue else queue ++ [msg]).Perm
      (msg :: (free ++ queue)) := by
    cases urgent with
    | true => exact List.perm_middle
    | false =>
      rw [if_neg (by simp), ← List.append_assoc]
      exact List.perm_append_singleton _ _
  have partition := (valid.partition.give own).perm perm.symm
  have apart (b : ℕ) (inQueue : b ∈ queue) : b ≠ msg := by
    rintro rfl
    exact absent (List.mem_append_right _ inQueue)
  have isNew (b : ℕ) : b ∈ (if urgent then msg :: queue else queue ++ [msg]) ↔
      b = msg ∨ b ∈ queue := by
    cases urgent <;> simp [or_comm]
  refine ⟨?_, ?_, ?_, ?_, fun b inQueue => ?_, Intact.update valid.intact trivial
    (fun u ne b isHeld => ?_) msgSize (List.Subset.refl _), valid.ordered.link urgent _, ?_⟩
  · have intact := valid.intact t
    rw [isCall] at intact
    cases urgent with
    | true => exact valid.linked.linkHead absent
    | false => exact valid.linked.linkTail valid.partition.nodup absent (intact rfl)
  · simp only [recordLink, Messages.mqSendLink, Messages.setCall, held_update, maxMsgs]
    exact partition
  · have length := partition.length_le
    have bound := p.messages.queue.maxMsgs.toNat_lt
    rw [perm.length_eq, List.length_cons, List.length_append] at length
    show (p.messages.queue.link urgent msg).entry.toNat = _
    rw [entry, toNat_succ (by rw [valid.entry]; omega), valid.entry]
    cases urgent <;> simp
  · have old : queue.map (p.recordLink urgent msg (p.messages.mqSendLink t urgent msg)).item =
        p.log.queue := by
      rw [← valid.stored]
      exact List.map_congr_left fun b inQueue => update_of_ne (apart b inQueue) _ _
    have new : (p.recordLink urgent msg (p.messages.mqSendLink t urgent msg)).item msg =
        p.log.item urgent (p.messages.queue.data msg) := update_self ..
    cases urgent with
    | true =>
      rw [if_pos rfl, List.map_cons, old, new]
      rfl
    | false =>
      rw [if_neg (by simp), List.map_append, old, List.map_singleton, new]
      rfl
  · show (update p.item msg _ b).value = (p.messages.queue.link urgent msg).data b
    rw [data]
    rcases (isNew b).mp inQueue with rfl | before
    · rw [update_self]
      rfl
    · rw [update_of_ne (apart b before), valid.value b before]
  · have other := valid.other own ne isHeld
    have elsewhere := valid.partition.apart u b isHeld
    rw [List.mem_append, not_or] at elsewhere
    exact ⟨valid.linked.link_next urgent other elsewhere.2, congrFun data b, update_of_ne other _ _⟩
  · exact valid.parked.wakeFirst suspendThread

theorem Valid.putFree {buffer : List UInt8}
    (isCall : p.messages.call t = .emptied msg buffer) :
    Valid { p with messages := (p.messages.mqRecvFree t msg).1 } (msg :: free) queue := by
  have own : (p.messages.call t).msg = some msg := by rw [isCall]; rfl
  refine ⟨valid.linked.putFree (valid.partition.apart t msg own), ?_, valid.entry, valid.stored,
    valid.value, Intact.update valid.intact trivial (fun u ne b isHeld => ?_) rfl
      (List.Subset.refl _), valid.ordered, valid.parked⟩
  · simp only [Messages.mqRecvFree, Messages.setCall, held_update]
    exact valid.partition.give own
  · exact ⟨update_of_ne (valid.other own ne isHeld) _ _, rfl, rfl⟩

theorem Valid.reset :
    Valid { p with messages := p.messages.mqReset.1, log := p.log.clear } (queue.reverse ++ free)
      [] := by
  obtain ⟨data, maxMsgs, msgSize⟩ :=
    release_frame p.messages.queue p.messages.queue.maxMsgs.toNat
  have enough : queue.length ≤ p.messages.queue.maxMsgs.toNat := by
    have := valid.partition.length_le
    rw [List.length_append] at this
    omega
  obtain ⟨released, kept⟩ := valid.linked.release valid.partition.nodup enough
  refine ⟨⟨released.free, released.queue⟩, ?_, rfl, rfl, by simp, fun u =>
    (valid.intact u).of_same (fun b isHeld => ?_) msgSize (List.Subset.refl _),
    valid.ordered.clear, (valid.parked.ipcListResumeAll le_rfl).1⟩
  · simp only [Messages.mqReset, maxMsgs]
    refine valid.partition.perm ?_
    rw [List.append_nil]
    exact List.perm_append_comm.trans ((List.reverse_perm queue).symm.append_right free)
  · have elsewhere := valid.partition.apart u b isHeld
    rw [List.mem_append, not_or] at elsewhere
    exact ⟨kept b elsewhere.2, congrFun data b, rfl⟩

theorem Valid.goOn (none : (p.messages.call t).msg = none) (c : MqCall)
    (noBlock : c.msg = Option.none) (intact : Intact p.messages.queue p.item p.log.taken c)
    {kernel : Kernel} (parked : kernel.Parked) :
    Valid { p with messages := { p.messages with kernel }.setCall t c } free queue := by
  refine ⟨valid.linked, ?_, valid.entry, valid.stored, valid.value, Intact.update valid.intact intact
    (fun _ _ _ _ => ⟨rfl, rfl, rfl⟩) rfl (List.Subset.refl _), valid.ordered, parked⟩
  rw [Messages.setCall, held_update_of_same _ (noBlock.trans none.symm)]
  exact valid.partition

end

theorem Valid.unlink {msg : ℕ} (valid : p.Valid free (msg :: queue))
    (none : (p.messages.call t).msg = none) (size : ℕ) :
    Valid { p with
      messages := { p.messages with
        queue := { p.messages.queue.unlink msg with
          entry := (p.messages.queue.unlink msg).entry - 1 } }.setCall t (.emptying msg size)
      log := p.log.take } free queue := by
  obtain ⟨-, unlinked⟩ := valid.linked.unlink
  have isQueue : p.log.queue = p.item msg :: queue.map p.item := valid.stored.symm
  have taken : p.log.take.taken = p.log.taken ++ [p.item msg] := by
    simp [UrgentQueue.Log.take, isQueue]
  have length : p.messages.queue.entry.toNat = queue.length + 1 := valid.entry
  refine ⟨⟨unlinked.free, unlinked.queue⟩, ?_, ?_, ?_, fun b inQueue => ?_,
    Intact.update valid.intact ⟨?_, ?_⟩ (fun _ _ _ _ => ⟨rfl, rfl, rfl⟩) rfl ?_,
    valid.ordered.take, valid.parked⟩
  · simp only [Messages.setCall, held_update]
    exact (valid.partition.perm List.perm_middle).take none
  · have positive : 0 < p.messages.queue.entry := UInt16.lt_iff_toNat_lt.mpr (by
      rw [length]
      exact succ_pos _)
    have pred := toNat_pred positive
    rw [length] at pred
    exact succ.inj pred
  · simp [UrgentQueue.Log.take, isQueue]
  · exact valid.value b (List.mem_cons_of_mem msg inQueue)
  · rw [taken]
    simp
  · exact valid.value msg List.mem_cons_self
  · exact List.subset_append_left _ _

theorem Valid.recvLoop (valid : p.Valid free queue)
    (ready : (p.messages.kernel.thread t).stat = .ready) (none : (p.messages.call t).msg = none)
    (size : ℕ) (timeout : Int32) (tickDelta : UInt32) :
    ∃ queue, (p.recordRecv t (p.messages.mqRecvLoop t size timeout tickDelta)).Valid free queue := by
  unfold Messages.mqRecvLoop
  by_cases empty : p.messages.queue.entry = 0
  · refine ⟨queue, ?_⟩
    rw [if_pos empty]
    by_cases instant : timeout = 0
    · rw [if_pos instant, recordRecv]
      simp only [Messages.setCall, update_self]
      have parked : (p.messages.kernel.modify t fun thread =>
          { thread with error := .timeout }).Parked := valid.parked.modify t rfl
      exact valid.goOn none .idle rfl trivial parked
    · rw [if_neg instant, recordRecv]
      simp only [Messages.setCall, update_self]
      exact valid.goOn none (.waiting _ _ _) rfl trivial (valid.parked.parks
        (valid.parked.unlinked ready) (valid.parked.ipcWait ready _ _ _))
  · rw [if_neg empty]
    cases queue with
    | nil => exact absurd (UInt16.toNat_inj.mp valid.entry) empty
    | cons msg queue =>
      refine ⟨queue, ?_⟩
      rw [valid.linked.unlink.1, recordRecv]
      simp only [Messages.setCall, update_self]
      exact valid.unlink none size

theorem Valid.step (valid : p.Valid free queue) {e : Event} (h : p.step e = some p') :
    ∃ free queue, p'.Valid free queue := by
  cases e with
  | send t urgent buffer =>
    rw [Traffic.step] at h
    split_ifs at h with idle
    obtain ⟨free, valid'⟩ := valid.send idle urgent buffer
    exact ⟨free, queue, some.inj h ▸ valid'⟩
  | recv t size timeout =>
    rw [Traffic.step] at h
    split_ifs at h with idle
    rw [← some.inj h, Messages.mqRecv]
    split_ifs with refused
    · refine ⟨free, queue, ?_⟩
      rw [recordRecv]
      simp only [idle.2]
      exact valid
    · exact ⟨free, valid.recvLoop idle.1 (by rw [idle.2]; rfl) size timeout 0⟩
  | copy t =>
    rw [Traffic.step] at h
    split_ifs at h with ready
    cases isCall : p.messages.call t <;> simp only [isCall, some.injEq, reduceCtorEq] at h
    case filling urgent msg buffer => exact ⟨free, queue, h ▸ valid.fill isCall⟩
    case emptying msg size => exact ⟨free, queue, h ▸ valid.copy isCall⟩
  | finish t =>
    rw [Traffic.step] at h
    split_ifs at h with ready
    cases isCall : p.messages.call t <;> simp only [isCall, some.injEq, reduceCtorEq] at h
    case filled urgent msg => exact ⟨free, _, h ▸ valid.link isCall⟩
    case emptied msg buffer => exact ⟨_, queue, h ▸ valid.putFree isCall⟩
  | resume t =>
    rw [Traffic.step] at h
    split_ifs at h with ready
    cases isCall : p.messages.call t <;> simp only [isCall, some.injEq, reduceCtorEq] at h
    case waiting size timeout tickDelta =>
      have none : (p.messages.call t).msg = none := by rw [isCall]; rfl
      rw [← h, Messages.mqRecvResumed]
      split_ifs with error
      · refine ⟨free, queue, ?_⟩
        rw [recordRecv]
        simp only [Messages.setCall, update_self]
        exact valid.goOn none .idle rfl trivial valid.parked
      · exact ⟨free, valid.recvLoop ready none ..⟩
  | timeout t =>
    obtain ⟨k, expired, rfl⟩ := map_eq_some_iff.mp h
    refine ⟨free, queue, valid.linked, valid.partition, valid.entry, valid.stored, valid.value,
      valid.intact, valid.ordered, ?_⟩
    exact valid.parked.wakes (Kernel.wakes_expires expired).2
  | reset t =>
    rw [Traffic.step] at h
    split_ifs at h with idle
    exact ⟨_, _, some.inj h ▸ valid.reset⟩
  | tick =>
    rw [← some.inj h]
    exact ⟨free, queue, valid.linked, valid.partition, valid.entry, valid.stored, valid.value,
      valid.intact, valid.ordered, valid.parked⟩

/-! ## The pool is conserved -/

/-- The pool is conserved and the messages arrive in order. -/
structure Conserves (p : Traffic) : Prop where
  /-- The free list, the queue list and the threads that copy a message have the blocks between them,
  the pointers lead to the lists, and the queue list holds the messages of the queue in order. -/
  pool : ∃ free queue, p.messages.queue.Linked free queue ∧
    Partition p.messages.queue.maxMsgs.toNat (free ++ queue) (held p.messages.call) ∧
    p.messages.queue.entry.toNat = queue.length ∧ queue.map p.item = p.log.queue ∧
    ∀ b ∈ queue, (p.item b).value = p.messages.queue.data b
  /-- What a receiver has copied is the message that it has taken. -/
  received : ∀ t msg buffer, p.messages.call t = .emptied msg buffer → p.item msg ∈ p.log.taken ∧
    buffer <+: (List.range p.messages.queue.msgSize.toNat).map (p.item msg).value
  ordinary : (p.log.taken.filter fun m => !m.urgent).Pairwise fun m n => m.id < n.id
  urgent : ∀ u ∈ p.log.linked, u.urgent = true → ∀ m ∈ p.log.taken, m.id ∈ u.present →
    [u, m] <+ p.log.taken

theorem Valid.conserves (valid : p.Valid free queue) : p.Conserves := by
  have taken := valid.ordered.clear
  have order : p.log.clear.order = p.log.taken := by
    simp [UrgentQueue.Log.order, UrgentQueue.Log.clear]
  refine ⟨⟨free, queue, valid.linked, valid.partition, valid.entry, valid.stored, valid.value⟩,
    fun t msg buffer isCall => ?_, order ▸ taken.ordinary, order ▸ taken.urgent⟩
  have intact := valid.intact t
  rwa [isCall] at intact

/-- In every interleaving of sends, receives and resets from a new queue, the pool is conserved and
the messages arrive in order. -/
theorem conserves_of_init (kernel : Kernel) (parked : kernel.Parked)
    (next : ℕ → Option ℕ) (data : ℕ → ℕ → UInt8) (msgSize poolSize : UInt32) (flag : IpcFlag)
    (tick : UInt32) (item : ℕ → UrgentQueue.Item (ℕ → UInt8)) (events : List Event) :
    ∀ p ∈ run (lift step)
        (some (start kernel (.init next data msgSize poolSize flag) tick item)) events,
      p.Conserves := by
  obtain ⟨linked, entry⟩ := linked_init next data msgSize poolSize flag
  have partition : Partition (init next data msgSize poolSize flag).maxMsgs.toNat
      ((List.range (init next data msgSize poolSize flag).maxMsgs.toNat).reverse ++ [])
      (held fun _ => .idle) := by
    refine ⟨by simp [List.nodup_range], ?_, ?_, ?_⟩ <;> simp [held, MqCall.msg]
  have initial : (start kernel (.init next data msgSize poolSize flag) tick item).Valid _ [] :=
    ⟨linked, partition, congrArg UInt16.toNat entry, rfl, by simp, fun _ => trivial,
      UrgentQueue.Log.ordered_empty, parked⟩
  intro p reached
  obtain ⟨free, queue, valid⟩ :=
    lift_invariant (I := fun p : Traffic => ∃ free queue, p.Valid free queue)
      (fun _ _ _ ⟨_, _, valid⟩ h => valid.step h) ⟨_, _, initial⟩ events p reached
  exact valid.conserves

/-- The urgent message is linked second and received first, and the queue is reset during the other
copy. -/
def overtaking : List Event :=
  [.send 1 false [7], .send 2 true [8], .copy 1, .copy 2, .finish 1, .finish 2, .recv 3 4 0, .copy 3,
    .finish 3, .recv 3 4 (-1), .reset 1, .send 2 false [9], .copy 3]

theorem conserves_of_init_overtaking :
    ∃ p ∈ run (lift step)
        (some (start (.allReady Locks.threeThreads) (.init (fun _ => none) (fun _ _ => 0) 4 16 .fifo) 0
          fun _ => ⟨0, false, [], fun _ => 0⟩)) overtaking,
      p.Conserves ∧ p.log.taken.map (·.id) = [1, 0] ∧
        p.messages.call 3 = .emptied 1 [7, 0, 0, 0] := by
  have state : (run (lift step)
      (some (start (.allReady Locks.threeThreads) (.init (fun _ => none) (fun _ _ => 0) 4 16 .fifo) 0
        fun _ => ⟨0, false, [], fun _ => 0⟩)) overtaking).map
      (fun p => (p.log.taken.map (·.id), p.messages.call 3)) =
        some ([1, 0], .emptied 1 [7, 0, 0, 0]) := by decide +kernel
  obtain ⟨p, reached, values⟩ := map_eq_some_iff.mp state
  simp only [Prod.mk.injEq] at values
  exact ⟨p, reached, conserves_of_init _ (.of_empty fun _ => rfl) _ _ _ _ _ _ _ _ p reached, values⟩

end Traffic

end Tm4cPilot.Rtt
