import Tm4cPilot.Lib.Ring
import Tm4cPilot.Rtt.Ipc

/-!
# RT-Thread mailboxes

`rt_mb_send_wait` and `rt_mb_recv`, one interrupt-disabled section at a time.  A waiter is only made
ready: another thread may come first, and then it waits again for the rest of its time.
-/

namespace Tm4cPilot.Rtt

open List Function Option Kernel Run Nat

/-- `struct rt_mailbox`. -/
structure Mailbox where
  msgPool : ℕ → UInt32
  size : UInt16
  entry : UInt16
  inOffset : UInt16
  outOffset : UInt16
  flag : IpcFlag

namespace Mailbox

def init (msgPool : ℕ → UInt32) (size : UInt16) (flag : IpcFlag) : Mailbox where
  msgPool := msgPool
  size := size
  entry := 0
  inOffset := 0
  outOffset := 0
  flag := flag

variable (mb : Mailbox)

/-- The next offset. -/
def advance (offset : UInt16) : UInt16 := if mb.size ≤ offset + 1 then 0 else offset + 1

/-- The part of `rt_mb_send_wait` that stores a mail. -/
def insert (value : UInt32) : Mailbox :=
  { mb with
    msgPool := update mb.msgPool mb.inOffset.toNat value
    inOffset := mb.advance mb.inOffset
    entry := mb.entry + 1 }

/-- The part of `rt_mb_recv` that fetches a mail. -/
def remove : UInt32 × Mailbox :=
  (mb.msgPool mb.outOffset.toNat,
    { mb with
      outOffset := mb.advance mb.outOffset
      entry := mb.entry - 1 })

end Mailbox

def suspendThread : ℕ := 0

def suspendSenderThread : ℕ := 1

/-! ## Calls -/

/-- The error number of the thread, or `RT_EFULL`. -/
inductive Reply where
  | error (e : Err)
  | full
  deriving DecidableEq, Repr

/-- Where a thread waits, with the local variables of the call. -/
inductive MailCall where
  | idle
  | sending (value : UInt32) (timeout : Int32) (tickDelta : UInt32)
  | receiving (timeout : Int32) (tickDelta : UInt32)
  deriving DecidableEq, Repr

/-- The rest of the timeout. -/
def recalculate (timeout : Int32) (tickDelta now : UInt32) : Int32 :=
  if 0 < timeout then
    let timeout := timeout - (now - tickDelta).toInt32
    if timeout < 0 then 0 else timeout
  else timeout

/-- The kernel and the mailbox. -/
structure Mail where
  kernel : Kernel
  mailbox : Mailbox
  tick : UInt32
  call : Tid → MailCall

namespace Mail

variable (s : Mail)

/-- Where a thread is. -/
def setCall (t : Tid) (call : MailCall) : Mail :=
  { s with call := update s.call t call }

/-- The loop of `rt_mb_send_wait`; nothing if the thread waits. -/
def sendLoop (t : Tid) (value : UInt32) (timeout : Int32) (tickDelta : UInt32) :
    Mail × Option Reply :=
  if s.mailbox.entry = s.mailbox.size then
    if timeout = 0 then
      let kernel := s.kernel.modify t fun thread => { thread with error := .ok }
      ({ s with kernel }.setCall t .idle, some .full)
    else
      let kernel := s.kernel.ipcWait suspendSenderThread t s.mailbox.flag timeout.toInt
      ({ s with kernel }.setCall t (.sending value timeout (if 0 < timeout then s.tick else tickDelta)),
        none)
  else
    let kernel := if s.kernel.list (.suspend suspendThread) ≠ []
      then s.kernel.ipcListResume suspendThread else s.kernel
    ({ s with kernel, mailbox := s.mailbox.insert value }.setCall t .idle, some (.error .ok))

/-- `rt_mb_send_wait`, up to the first switch. -/
def mbSendWait (t : Tid) (value : UInt32) (timeout : Int32) : Mail × Option Reply :=
  if s.mailbox.entry = s.mailbox.size ∧ timeout = 0 then (s, some .full)
  else s.sendLoop t value timeout 0

/-- The loop of `rt_mb_recv`. It also returns the mail. -/
def recvLoop (t : Tid) (timeout : Int32) (tickDelta : UInt32) :
    Mail × Option (Reply × Option UInt32) :=
  if s.mailbox.entry = 0 then
    if timeout = 0 then
      let kernel := s.kernel.modify t fun thread => { thread with error := .timeout }
      ({ s with kernel }.setCall t .idle, some (.error .timeout, none))
    else
      let kernel := s.kernel.ipcWait suspendThread t s.mailbox.flag timeout.toInt
      ({ s with kernel }.setCall t (.receiving timeout (if 0 < timeout then s.tick else tickDelta)),
        none)
  else
    let kernel := if s.kernel.list (.suspend suspendSenderThread) ≠ []
      then s.kernel.ipcListResume suspendSenderThread else s.kernel
    ({ s with kernel, mailbox := s.mailbox.remove.2 }.setCall t .idle,
      some (.error .ok, some s.mailbox.remove.1))

/-- `rt_mb_recv`, up to the first switch to another thread. -/
def mbRecv (t : Tid) (timeout : Int32) : Mail × Option (Reply × Option UInt32) :=
  if s.mailbox.entry = 0 ∧ timeout = 0 then (s, some (.error .timeout, none))
  else s.recvLoop t timeout 0

/-- The sender runs again. -/
def sendResumed (t : Tid) (value : UInt32) (timeout : Int32) (tickDelta : UInt32) :
    Mail × Option Reply :=
  if (s.kernel.thread t).error ≠ .ok then
    (s.setCall t .idle, some (.error (s.kernel.thread t).error))
  else s.sendLoop t value (recalculate timeout tickDelta s.tick) (s.tick - tickDelta)

/-- The receiver runs again. -/
def recvResumed (t : Tid) (timeout : Int32) (tickDelta : UInt32) :
    Mail × Option (Reply × Option UInt32) :=
  if (s.kernel.thread t).error ≠ .ok then
    (s.setCall t .idle, some (.error (s.kernel.thread t).error, none))
  else s.recvLoop t (recalculate timeout tickDelta s.tick) (s.tick - tickDelta)

theorem sendLoop_setCall (t : Tid) (call : MailCall) (value : UInt32) (timeout : Int32)
    (tickDelta : UInt32) :
    (s.setCall t call).sendLoop t value timeout tickDelta = s.sendLoop t value timeout tickDelta := by
  simp only [sendLoop, setCall, update_idem]
  rfl

theorem recvLoop_setCall (t : Tid) (call : MailCall) (timeout : Int32) (tickDelta : UInt32) :
    (s.setCall t call).recvLoop t timeout tickDelta = s.recvLoop t timeout tickDelta := by
  simp only [recvLoop, setCall, update_idem]
  rfl

end Mail

/-! ## Waiting threads -/

/-- The list a call waits in. -/
def MailCall.object : MailCall → Option ℕ
  | .idle => none
  | .sending _ _ _ => some suspendSenderThread
  | .receiving _ _ => some suspendThread

/-- The calls, with those that are woken. -/
def mailCalls (call : Tid → MailCall) (woken : ℕ → List Tid) (t : Tid) : Option (ℕ × Bool) :=
  (call t).object.map fun m => (m, decide (t ∈ woken m))

/-- Waiting threads are in their lists or have been woken. -/
structure Queued (k : Kernel) (call : Tid → MailCall) (woken : ℕ → List Tid) : Prop where
  parked : k.Parked
  waiting : Waiting k (mailCalls call woken)
  inCall : ∀ m, ∀ t ∈ woken m, (call t).object = some m
  nodup : ∀ m, (woken m).Nodup

namespace Queued

variable {k k' : Kernel} {call : Tid → MailCall} {woken : ℕ → List Tid} {t : Tid} {m : ℕ}

variable (queued : Queued k call woken)
include queued

theorem writeError (idle : call t = .idle) (e : Err) :
    Queued (k.modify t fun thread => { thread with error := e }) call woken := by
  refine ⟨queued.parked.modify t rfl, queued.waiting.of_same (fun _ => rfl) fun u inCall => ?_,
    queued.inCall, queued.nodup⟩
  have other : u ≠ t := by
    rintro rfl
    simp [mailCalls, idle, MailCall.object] at inCall
  simp [other]

theorem park (ready : (k.thread t).stat = .ready) (idle : call t = .idle) (next : MailCall)
    (object : next.object = some m) (flag : IpcFlag) (time : ℤ) :
    Queued (k.ipcWait m t flag time) (update call t next) woken := by
  have parks := queued.parked.ipcWait ready m flag time
  have asleep (m' : ℕ) : t ∉ woken m' := by
    intro inWoken
    have inCall := queued.inCall m' t inWoken
    rw [idle] at inCall
    cases inCall
  have calls : mailCalls (update call t next) woken =
      update (mailCalls call woken) t (some (m, false)) := by
    funext u
    by_cases same : u = t
    · subst same
      simp [mailCalls, object, asleep m]
    · simp [mailCalls, same]
  refine ⟨queued.parked.parks (queued.parked.unlinked ready) parks, ?_, fun m' u inWoken => ?_,
    queued.nodup⟩
  · rw [calls]
    exact queued.waiting.park (by simp [mailCalls, idle, MailCall.object]) parks
  · have other : u ≠ t := by
      rintro rfl
      exact asleep m' inWoken
    rw [update_of_ne other]
    exact queued.inCall m' u inWoken

theorem leave (ready : (k.thread t).stat = .ready) :
    Queued k (update call t .idle) fun m => (woken m).erase t := by
  have calls : mailCalls (update call t .idle) (fun m => (woken m).erase t) =
      update (mailCalls call woken) t none := by
    funext u
    by_cases same : u = t
    · subst same
      simp [mailCalls, MailCall.object]
    · simp [mailCalls, same, mem_erase_of_ne]
  refine ⟨queued.parked, ?_, fun m u inWoken => ?_, fun m => (queued.nodup m).erase t⟩
  · rw [calls]
    exact queued.waiting.leave (queued.parked.unlinked ready)
  · have other : u ≠ t := by
      rintro rfl
      exact (queued.nodup m).not_mem_erase inWoken
    rw [update_of_ne other]
    exact queued.inCall m u (mem_of_mem_erase inWoken)

theorem wakeFirst (m : ℕ) :
    Queued (if k.list (.suspend m) ≠ [] then k.ipcListResume m else k) call
      (update woken m ((k.list (.suspend m)).head?.toList ++ woken m)) := by
  cases queue : k.list (.suspend m) with
  | nil => simpa using queued
  | cons w rest =>
    have inList : w ∈ k.list (.suspend m) := queue ▸ mem_cons_self
    have wakes := wakes_threadResume (queued.parked.suspended m w inList)
    obtain ⟨isCall, -⟩ := queued.waiting.linked m w inList
    obtain ⟨m', object, isM'⟩ := map_eq_some_iff.mp isCall
    simp only [Prod.mk.injEq, decide_eq_false_iff_not] at isM'
    obtain ⟨rfl, asleep⟩ := isM'
    have resumed : k.ipcListResume m' = (k.threadResume w).1 := by
      rw [ipcListResume, queue]
    have calls : mailCalls call (update woken m' (w :: woken m')) =
        update (mailCalls call woken) w (some (m', true)) := by
      funext u
      by_cases same : u = w
      · subst same
        simp [mailCalls, object]
      · by_cases here : (call u).object = some m'
        · simp [mailCalls, here, same]
        · rw [update_of_ne same]
          unfold mailCalls
          cases other : (call u).object with
          | none => rfl
          | some m =>
            have ne : m ≠ m' := by
              rintro rfl
              exact here other
            simp [ne]
    rw [resumed]
    refine ⟨queued.parked.wakes wakes, ?_, fun m u inWoken => ?_, fun m => ?_⟩
    · show Waiting _ (mailCalls call (update woken m' (w :: woken m')))
      rw [calls]
      exact queued.waiting.serve queued.parked inList wakes
    · by_cases here : m = m'
      · subst here
        rw [update_self] at inWoken
        rcases mem_cons.mp inWoken with rfl | before
        · exact object
        · exact queued.inCall m u before
      · rw [update_of_ne here] at inWoken
        exact queued.inCall m u inWoken
    · by_cases here : m = m'
      · subst here
        rw [update_self]
        exact nodup_cons.mpr ⟨asleep, queued.nodup m⟩
      · rw [update_of_ne here]
        exact queued.nodup m

theorem expire (h : k.expires t = some k') : Queued k' call woken := by
  obtain ⟨suspended, wakes⟩ := wakes_expires h
  exact ⟨queued.parked.wakes wakes, queued.waiting.expire queued.parked suspended wakes,
    queued.inCall, queued.nodup⟩

theorem error_iff (ready : (k.thread t).stat = .ready) (object : (call t).object = some m) :
    (k.thread t).error = .ok ↔ t ∈ woken m := by
  have isCall : mailCalls call woken t = some (m, decide (t ∈ woken m)) := by
    simp [mailCalls, object]
  rw [(queued.waiting.resumed t m _ isCall (queued.parked.unlinked ready m)).2, decide_eq_true_iff]

end Queued

/-- The mailbox, the values sent and received, and the threads woken from each list. -/
structure Post where
  mail : Mail
  sent : List UInt32
  received : List UInt32
  woken : ℕ → List Tid

inductive Post.Event where
  | send (t : Tid) (value : UInt32) (timeout : Int32)
  | recv (t : Tid) (timeout : Int32)
  | resume (t : Tid)
  | timeout (t : Tid)
  | tick
  deriving DecidableEq, Repr

namespace Post

variable (p : Post)

/-- The first waiter is woken. -/
def wake (m : ℕ) : ℕ → List Tid :=
  update p.woken m ((p.mail.kernel.list (.suspend m)).head?.toList ++ p.woken m)

/-- A send is recorded. -/
def recordSend (value : UInt32) (result : Mail × Option Reply) : Post :=
  if result.2 = some (.error .ok) then
    { p with mail := result.1, sent := p.sent ++ [value], woken := p.wake suspendThread }
  else { p with mail := result.1 }

/-- A receive is recorded. -/
def recordRecv (result : Mail × Option (Reply × Option UInt32)) : Post :=
  match result.2 with
  | some (.error .ok, some value) =>
    { p with
      mail := result.1
      received := p.received ++ [value]
      woken := p.wake suspendSenderThread }
  | _ => { p with mail := result.1 }

/-- A woken thread runs. -/
def unwake (t : Tid) : Post := { p with woken := fun m => (p.woken m).erase t }

def step : Event → Option Post
  | .send t value timeout =>
    if (p.mail.kernel.thread t).stat = .ready ∧ p.mail.call t = .idle then
      some (p.recordSend value (p.mail.mbSendWait t value timeout))
    else none
  | .recv t timeout =>
    if (p.mail.kernel.thread t).stat = .ready ∧ p.mail.call t = .idle then
      some (p.recordRecv (p.mail.mbRecv t timeout))
    else none
  | .resume t =>
    if (p.mail.kernel.thread t).stat = .ready then
      match p.mail.call t with
      | .idle => none
      | .sending value timeout tickDelta =>
        some ((p.unwake t).recordSend value (p.mail.sendResumed t value timeout tickDelta))
      | .receiving timeout tickDelta =>
        some ((p.unwake t).recordRecv (p.mail.recvResumed t timeout tickDelta))
    else none
  | .timeout t => (p.mail.kernel.expires t).map fun kernel => { p with mail := { p.mail with kernel } }
  | .tick => some { p with mail := { p.mail with tick := p.mail.tick + 1 } }

/-- An empty mailbox. -/
def start (kernel : Kernel) (mailbox : Mailbox) (tick : UInt32) : Post where
  mail := ⟨kernel, mailbox, tick, fun _ => .idle⟩
  sent := []
  received := []
  woken _ := []

/-- A thread of the list has been woken. -/
def InTransit (m : ℕ) : Prop :=
  ∃ t, (p.mail.call t).object = some m ∧ (p.mail.kernel.thread t).stat = .ready ∧
    (p.mail.kernel.thread t).error = .ok

/-- A bounded FIFO. -/
structure Fifo : Prop where
  /-- The values received are the first ones of those sent; the others are in the mailbox. -/
  order : p.received <+: p.sent
  length : p.sent.length = p.received.length + p.mail.mailbox.entry.toNat
  bound : p.mail.mailbox.entry ≤ p.mail.mailbox.size
  /-- Receivers are suspended only while the mailbox is empty. -/
  receivers : p.mail.kernel.list (.suspend suspendThread) ≠ [] → ¬ p.InTransit suspendThread →
    p.mail.mailbox.entry = 0
  /-- Senders are suspended only while the mailbox is full. -/
  senders : p.mail.kernel.list (.suspend suspendSenderThread) ≠ [] →
    ¬ p.InTransit suspendSenderThread → p.mail.mailbox.entry = p.mail.mailbox.size

/-! ## The steps -/

/-- What the waiters of a list wait for. -/
def available (mb : Mailbox) (m : ℕ) : ℕ :=
  if m = suspendThread then mb.entry.toNat
  else if m = suspendSenderThread then mb.size.toNat - mb.entry.toNat
  else 0

/-- While threads wait, only as much is available as threads have been woken, up to a running
thread. -/
def Balanced (k : Kernel) (woken : ℕ → List Tid) (mb : Mailbox) (slack : ℕ → ℕ) : Prop :=
  ∀ m, k.list (.suspend m) ≠ [] → available mb m ≤ (woken m).length + slack m

/-- The values are those of the ring. -/
def Stored (mb : Mailbox) (sent received : List UInt32) : Prop :=
  ∃ contents, Ring.Holds mb.size.toNat mb.msgPool mb.outOffset.toNat mb.inOffset.toNat contents ∧
    contents.length = mb.entry.toNat ∧ sent = received ++ contents

/-- What every event keeps. -/
structure Valid (p : Post) (slack : ℕ → ℕ) : Prop where
  queued : Queued p.mail.kernel p.mail.call p.woken
  balanced : Balanced p.mail.kernel p.woken p.mail.mailbox slack
  stored : Stored p.mail.mailbox p.sent p.received

variable {p} {p' : Post} {mb : Mailbox} {sent received : List UInt32} {k k' : Kernel}
  {woken : ℕ → List Tid} {slack : ℕ → ℕ} {t : Tid} {m : ℕ}

theorem toNat_advance {offset : UInt16} (inside : offset.toNat < mb.size.toNat) :
    (mb.advance offset).toNat = Ring.next mb.size.toNat offset.toNat := by
  have bound := mb.size.toNat_lt
  have succ : (offset + 1).toNat = offset.toNat + 1 := toNat_succ (by omega)
  unfold Mailbox.advance Ring.next
  simp only [UInt16.le_iff_toNat_le, succ]
  split_ifs
  · rfl
  · exact succ

theorem Stored.entry_le (stored : Stored mb sent received) : mb.entry.toNat ≤ mb.size.toNat := by
  obtain ⟨contents, holds, length, -⟩ := stored
  rw [← length]
  exact holds.length_le

theorem Stored.insert (stored : Stored mb sent received) (space : mb.entry ≠ mb.size)
    (value : UInt32) :
    Stored (mb.insert value) (sent ++ [value]) received ∧
      (mb.insert value).entry.toNat = mb.entry.toNat + 1 := by
  have bound := stored.entry_le
  have free : mb.entry.toNat < mb.size.toNat :=
    lt_of_le_of_ne bound fun same => space (UInt16.toNat_inj.mp same)
  have succ : (mb.insert value).entry.toNat = mb.entry.toNat + 1 :=
    toNat_succ (lt_of_lt_of_le free (le_of_lt_succ mb.size.toNat_lt))
  obtain ⟨contents, holds, length, isSent⟩ := stored
  refine ⟨⟨contents ++ [value], ?_, ?_, ?_⟩, succ⟩
  · have pushed := holds.push (by omega) value
    rwa [← toNat_advance (holds.last_lt (by omega))] at pushed
  · rw [succ, length_append, length]
    rfl
  · rw [isSent, append_assoc]

theorem Stored.remove (stored : Stored mb sent received) (some : mb.entry ≠ 0) :
    Stored mb.remove.2 sent (received ++ [mb.remove.1]) ∧
      mb.remove.2.entry.toNat + 1 = mb.entry.toNat := by
  have positive : 0 < mb.entry := UInt16.pos_iff_ne_zero.mpr some
  have pred : mb.remove.2.entry.toNat + 1 = mb.entry.toNat := toNat_pred positive
  obtain ⟨contents, holds, length, isSent⟩ := stored
  cases contents with
  | nil =>
    rw [length_nil] at length
    omega
  | cons value contents =>
    obtain ⟨here, popped⟩ := holds.pop
    have inside : mb.outOffset.toNat < mb.size.toNat := by
      have := holds.first_lt
      have := holds.length_le
      omega
    refine ⟨⟨contents, ?_, ?_, ?_⟩, pred⟩
    · rwa [← toNat_advance inside] at popped
    · rw [length_cons] at length
      omega
    · rw [isSent, append_assoc]
      show _ = received ++ ([mb.msgPool mb.outOffset.toNat] ++ contents)
      rw [here]
      rfl

/-- The slack of a list. -/
def aside (o : ℕ) : ℕ → ℕ := fun m => if m = o then 0 else 1

theorem Balanced.mono (balanced : Balanced k woken mb fun _ => 0) (slack : ℕ → ℕ) :
    Balanced k woken mb slack :=
  fun m waits => (balanced m waits).trans (Nat.add_le_add_left (Nat.zero_le _) _)

theorem Balanced.exchange {o : ℕ} (balanced : Balanced k woken mb (aside o)) (parked : k.Parked)
    (mb' : Mailbox) (more : available mb' o ≤ available mb o + 1)
    (fewer : ∀ m, m ≠ o → available mb' m ≤ available mb m - 1) :
    Balanced (if k.list (.suspend o) ≠ [] then k.ipcListResume o else k)
      (update woken o ((k.list (.suspend o)).head?.toList ++ woken o)) mb' fun _ => 0 := by
  intro m waits
  -- the lists only lose threads
  have waited : k.list (.suspend m) ≠ [] := by
    cases queue : k.list (.suspend o) with
    | nil => simpa [queue] using waits
    | cons w rest =>
      have wakes := wakes_threadResume (parked.suspended o w (queue ▸ mem_cons_self))
      rw [if_pos (by simp [queue]), ipcListResume, queue] at waits
      exact wakes.waited waits
  have before := balanced m waited
  by_cases here : m = o
  · subst here
    obtain ⟨w, rest, queue⟩ := exists_cons_of_ne_nil waited
    rw [aside, if_pos rfl] at before
    rw [update_self, queue]
    simp only [List.head?_cons, toList_some, cons_append, nil_append, length_cons]
    omega
  · have := fewer m here
    rw [aside, if_neg here] at before
    rw [update_of_ne here]
    omega

theorem Balanced.leave {o : ℕ} (balanced : Balanced k woken mb fun _ => 0)
    (elsewhere : t ∉ woken o) : Balanced k (fun m => (woken m).erase t) mb (aside o) := by
  intro m waits
  have before := balanced m waits
  dsimp only at before ⊢
  by_cases here : m = o
  · subst here
    rw [erase_of_not_mem elsewhere, aside, if_pos rfl]
    exact before
  · rw [aside, if_neg here]
    have shorter := length_erase (a := t) (l := woken m)
    split_ifs at shorter <;> omega

theorem Balanced.nothing {o m : ℕ} (balanced : Balanced k woken mb (aside o))
    (lists : ∀ m', m' ≠ m → k'.list (.suspend m') ≠ [] → k.list (.suspend m') ≠ [])
    (only : ∀ m', m' ≠ o → available mb m' = 0) (apart : m ≠ o) :
    Balanced k' woken mb fun _ => 0 := by
  intro m' waits
  by_cases here : m' = o
  · subst here
    have before := balanced m' (lists m' (Ne.symm apart) waits)
    rwa [aside, if_pos rfl] at before
  · rw [only m' here]
    exact zero_le _

theorem Valid.sendLoop (valid : p.Valid (aside suspendThread))
    (ready : (p.mail.kernel.thread t).stat = .ready) (idle : p.mail.call t = .idle) (value : UInt32)
    (timeout : Int32) (tickDelta : UInt32) :
    (p.recordSend value (p.mail.sendLoop t value timeout tickDelta)).Valid fun _ => 0 := by
  have sameCall : update p.mail.call t .idle = p.mail.call := by
    rw [← idle, update_eq_self]
  unfold Mail.sendLoop
  by_cases full : p.mail.mailbox.entry = p.mail.mailbox.size
  · have nothing (m : ℕ) (ne : m ≠ suspendThread) : available p.mail.mailbox m = 0 := by
      simp [available, ne, full]
    rw [if_pos full]
    by_cases instant : timeout = 0
    · -- no more time
      rw [if_pos instant, recordSend, if_neg (by simp)]
      refine ⟨?_, valid.balanced.nothing (m := suspendSenderThread) (fun _ _ waits => waits) nothing
        (by decide), valid.stored⟩
      simp only [Mail.setCall, sameCall]
      exact valid.queued.writeError idle .ok
    · -- the thread waits for space
      rw [if_neg instant, recordSend, if_neg (by simp)]
      have queued := valid.queued.park ready idle
        (.sending value timeout (if 0 < timeout then p.mail.tick else tickDelta)) rfl
        p.mail.mailbox.flag timeout.toInt
      have parks := valid.queued.parked.ipcWait ready suspendSenderThread p.mail.mailbox.flag
        timeout.toInt
      exact ⟨queued, valid.balanced.nothing (fun _ => parks.waited) nothing (by decide), valid.stored⟩
  · -- the mail is stored
    obtain ⟨stored, entry⟩ := valid.stored.insert full value
    rw [if_neg full, recordSend, if_pos rfl]
    refine ⟨?_, valid.balanced.exchange valid.queued.parked (p.mail.mailbox.insert value) ?_
      fun m ne => ?_, stored⟩
    · simp only [Mail.setCall, sameCall]
      exact valid.queued.wakeFirst suspendThread
    · simp only [available, if_true, entry, le_refl]
    · simp only [available, ne, if_false, entry]
      split_ifs
      · show p.mail.mailbox.size.toNat - _ ≤ _
        omega
      · exact zero_le _

theorem Valid.recvLoop (valid : p.Valid (aside suspendSenderThread))
    (ready : (p.mail.kernel.thread t).stat = .ready) (idle : p.mail.call t = .idle)
    (timeout : Int32) (tickDelta : UInt32) :
    (p.recordRecv (p.mail.recvLoop t timeout tickDelta)).Valid fun _ => 0 := by
  have sameCall : update p.mail.call t .idle = p.mail.call := by
    rw [← idle, update_eq_self]
  unfold Mail.recvLoop
  by_cases empty : p.mail.mailbox.entry = 0
  · have nothing (m : ℕ) (ne : m ≠ suspendSenderThread) : available p.mail.mailbox m = 0 := by
      simp [available, ne, empty]
    rw [if_pos empty]
    by_cases instant : timeout = 0
    · -- no more time
      rw [if_pos instant]
      refine ⟨?_, valid.balanced.nothing (m := suspendThread) (fun _ _ waits => waits) nothing
        (by decide), valid.stored⟩
      simp only [recordRecv, Mail.setCall, sameCall]
      exact valid.queued.writeError idle .timeout
    · -- the thread waits for a mail
      rw [if_neg instant]
      have queued := valid.queued.park ready idle
        (.receiving timeout (if 0 < timeout then p.mail.tick else tickDelta)) rfl
        p.mail.mailbox.flag timeout.toInt
      have parks := valid.queued.parked.ipcWait ready suspendThread p.mail.mailbox.flag timeout.toInt
      exact ⟨queued, valid.balanced.nothing (fun _ => parks.waited) nothing (by decide), valid.stored⟩
  · -- a mail is fetched
    obtain ⟨stored, entry⟩ := valid.stored.remove empty
    rw [if_neg empty]
    refine ⟨?_, valid.balanced.exchange valid.queued.parked p.mail.mailbox.remove.2 ?_
      fun m ne => ?_, stored⟩
    · simp only [recordRecv, Mail.setCall, sameCall]
      exact valid.queued.wakeFirst suspendSenderThread
    · simp only [available, suspendThread, suspendSenderThread, one_ne_zero, if_true, if_false]
      show p.mail.mailbox.size.toNat - _ ≤ _
      omega
    · simp only [available, ne, if_false]
      split_ifs
      · omega
      · exact zero_le _

/-! ### Runs -/

theorem recordRecv_none (p : Post) (mail : Mail) (reply : Reply) :
    p.recordRecv (mail, some (reply, none)) = { p with mail } := by
  cases reply with
  | error e => cases e <;> rfl
  | full => rfl

section

variable (valid : p.Valid fun _ => 0)
include valid

theorem Valid.mono (slack : ℕ → ℕ) : p.Valid slack :=
  ⟨valid.queued, valid.balanced.mono slack, valid.stored⟩

theorem Valid.resume (ready : (p.mail.kernel.thread t).stat = .ready)
    (object : (p.mail.call t).object = some m) :
    ((p.mail.kernel.thread t).error ≠ .ok →
      Valid { p.unwake t with mail := p.mail.setCall t .idle } fun _ => 0) ∧
    ∀ o, o ≠ m → Valid { p.unwake t with mail := p.mail.setCall t .idle } (aside o) := by
  have elsewhere (o : ℕ) (ne : o ≠ m) : t ∉ p.woken o := by
    intro inWoken
    rw [valid.queued.inCall o t inWoken] at object
    exact ne (some.inj object)
  have queued := valid.queued.leave ready
  refine ⟨fun failed => ⟨queued, ?_, valid.stored⟩, fun o ne =>
    ⟨queued, valid.balanced.leave (elsewhere o ne), valid.stored⟩⟩
  have asleep (o : ℕ) : t ∉ p.woken o := by
    by_cases here : o = m
    · subst here
      exact mt (valid.queued.error_iff ready object).mpr failed
    · exact elsewhere o here
  intro o waits
  rw [show ({ p.unwake t with mail := p.mail.setCall t .idle } : Post).woken o = p.woken o from
    erase_of_not_mem (asleep o)]
  exact valid.balanced o waits

theorem Valid.step {e : Event} (h : p.step e = some p') : p'.Valid fun _ => 0 := by
  cases e with
  | send t value timeout =>
    rw [Post.step] at h
    split_ifs at h with can
    rw [← some.inj h, Mail.mbSendWait]
    split_ifs with refused
    · exact valid
    · exact (valid.mono _).sendLoop can.1 can.2 value timeout 0
  | recv t timeout =>
    rw [Post.step] at h
    split_ifs at h with can
    rw [← some.inj h, Mail.mbRecv]
    split_ifs with refused
    · exact valid
    · exact (valid.mono _).recvLoop can.1 can.2 timeout 0
  | resume t =>
    rw [Post.step] at h
    split_ifs at h with ready
    cases call : p.mail.call t with
    | idle => simp [call] at h
    | sending value timeout tickDelta =>
      simp only [call, some.injEq] at h
      obtain ⟨failed, running⟩ := valid.resume ready (m := suspendSenderThread) (by rw [call]; rfl)
      rw [← h, Mail.sendResumed]
      split_ifs with error
      · rw [recordSend, if_neg (by simpa using error)]
        exact failed error
      · have looped := (running suspendThread (by decide)).sendLoop (t := t) ready
          (update_self ..) value (recalculate timeout tickDelta p.mail.tick)
          (p.mail.tick - tickDelta)
        rwa [Mail.sendLoop_setCall] at looped
    | receiving timeout tickDelta =>
      simp only [call, some.injEq] at h
      obtain ⟨failed, running⟩ := valid.resume ready (m := suspendThread) (by rw [call]; rfl)
      rw [← h, Mail.recvResumed]
      split_ifs with error
      · rw [recordRecv_none]
        exact failed error
      · have looped := (running suspendSenderThread (by decide)).recvLoop (t := t) ready
          (update_self ..) (recalculate timeout tickDelta p.mail.tick) (p.mail.tick - tickDelta)
        rwa [Mail.recvLoop_setCall] at looped
  | timeout t =>
    obtain ⟨k, expired, rfl⟩ := map_eq_some_iff.mp h
    obtain ⟨-, wakes⟩ := wakes_expires expired
    exact ⟨valid.queued.expire expired, fun m waits => valid.balanced m (wakes.waited waits),
      valid.stored⟩
  | tick =>
    rw [← some.inj h]
    exact ⟨valid.queued, valid.balanced, valid.stored⟩

theorem Valid.nothing_available (waits : p.mail.kernel.list (.suspend m) ≠ [])
    (still : ¬ p.InTransit m) : available p.mail.mailbox m = 0 := by
  have none : p.woken m = [] := by
    refine eq_nil_iff_forall_not_mem.mpr fun t inWoken => still ⟨t, ?_⟩
    have object := valid.queued.inCall m t inWoken
    have isCall : mailCalls p.mail.call p.woken t = some (m, true) := by
      simp [mailCalls, object, inWoken]
    have unlinked : t ∉ p.mail.kernel.list (.suspend m) := by
      intro inList
      rw [(valid.queued.waiting.linked m t inList).1] at isCall
      cases isCall
    obtain ⟨ready, error⟩ := valid.queued.waiting.resumed t m true isCall unlinked
    exact ⟨object, ready, error.mpr rfl⟩
  have bound := valid.balanced m waits
  rw [none] at bound
  exact le_zero.mp bound

theorem Valid.fifo : p.Fifo := by
  have bound := valid.stored.entry_le
  obtain ⟨contents, -, length, isSent⟩ := valid.stored
  refine ⟨⟨contents, isSent.symm⟩, by rw [isSent, length_append, length],
    UInt16.le_iff_toNat_le.mpr bound, fun waits still => ?_, fun waits still => ?_⟩
  · have none := valid.nothing_available waits still
    exact UInt16.toNat_inj.mp none
  · have none := valid.nothing_available waits still
    rw [available, if_neg (by decide), if_pos rfl] at none
    exact UInt16.toNat_inj.mp (by omega)

end

/-- In every interleaving with any timeouts, an empty mailbox that no thread waits for is a bounded
FIFO. -/
theorem fifo_of_init (kernel : Kernel) (idle : ∀ m, kernel.list (.suspend m) = [])
    (msgPool : ℕ → UInt32) (size : UInt16) (flag : IpcFlag) (tick : UInt32) (events : List Event) :
    ∀ p ∈ run (lift step) (some (start kernel (.init msgPool size flag) tick)) events,
      p.Fifo := by
  have initial : (start kernel (.init msgPool size flag) tick).Valid fun _ => 0 :=
    ⟨⟨.of_empty idle, .of_empty idle fun _ => rfl, by simp [start], by simp [start]⟩,
      fun m waits => absurd (idle m) waits, [], Ring.holds_nil _ _, rfl, rfl⟩
  intro p reached
  exact (lift_invariant (I := fun p : Post => p.Valid fun _ => 0)
    (fun _ _ _ valid h => valid.step h) initial events p reached).fifo

/-- A woken receiver is overtaken, while a second sender waits. -/
def overtaken : List Event :=
  [.recv 1 (-1), .send 2 7 0, .send 3 8 (-1), .recv 4 0, .resume 1, .tick, .resume 3, .resume 1]

theorem fifo_of_init_overtaken :
    ∃ p ∈ run (lift step)
        (some (start (.allReady Locks.threeThreads) (.init (fun _ => 0) 1 .fifo) 0)) overtaken,
      p.Fifo ∧ p.sent = [7, 8] ∧ p.received = [7, 8] := by
  have state : (run (lift step)
      (some (start (.allReady Locks.threeThreads) (.init (fun _ => 0) 1 .fifo) 0)) overtaken).map
      (fun p => (p.sent, p.received)) = some ([7, 8], [7, 8]) := by decide +kernel
  obtain ⟨p, reached, values⟩ := map_eq_some_iff.mp state
  simp only [Prod.mk.injEq] at values
  exact ⟨p, reached, fifo_of_init _ (fun _ => rfl) _ _ _ _ _ p reached, values⟩

end Post

end Tm4cPilot.Rtt
