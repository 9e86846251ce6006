import Tm4cPilot.Lib.TwoLevel

/-!
# The RT-Thread scheduler

The threads, their lists, the ready bitmap and the calls of `scheduler.c` and `thread.c`.  A call
that fails an assertion or reads through a null pointer has no result.  The lists stand for the
`tlist` nodes, each of which is in at most one.
-/

namespace Tm4cPilot.Rtt

open Function

def lowestBitBitmap : List ℕ :=
  [0, 0, 1, 0, 2, 0, 1, 0, 3, 0, 1, 0, 2, 0, 1, 0,
    4, 0, 1, 0, 2, 0, 1, 0, 3, 0, 1, 0, 2, 0, 1, 0,
    5, 0, 1, 0, 2, 0, 1, 0, 3, 0, 1, 0, 2, 0, 1, 0,
    4, 0, 1, 0, 2, 0, 1, 0, 3, 0, 1, 0, 2, 0, 1, 0,
    6, 0, 1, 0, 2, 0, 1, 0, 3, 0, 1, 0, 2, 0, 1, 0,
    4, 0, 1, 0, 2, 0, 1, 0, 3, 0, 1, 0, 2, 0, 1, 0,
    5, 0, 1, 0, 2, 0, 1, 0, 3, 0, 1, 0, 2, 0, 1, 0,
    4, 0, 1, 0, 2, 0, 1, 0, 3, 0, 1, 0, 2, 0, 1, 0,
    7, 0, 1, 0, 2, 0, 1, 0, 3, 0, 1, 0, 2, 0, 1, 0,
    4, 0, 1, 0, 2, 0, 1, 0, 3, 0, 1, 0, 2, 0, 1, 0,
    5, 0, 1, 0, 2, 0, 1, 0, 3, 0, 1, 0, 2, 0, 1, 0,
    4, 0, 1, 0, 2, 0, 1, 0, 3, 0, 1, 0, 2, 0, 1, 0,
    6, 0, 1, 0, 2, 0, 1, 0, 3, 0, 1, 0, 2, 0, 1, 0,
    4, 0, 1, 0, 2, 0, 1, 0, 3, 0, 1, 0, 2, 0, 1, 0,
    5, 0, 1, 0, 2, 0, 1, 0, 3, 0, 1, 0, 2, 0, 1, 0,
    4, 0, 1, 0, 2, 0, 1, 0, 3, 0, 1, 0, 2, 0, 1, 0]

/-- A byte of a word. -/
def byteOf (value : BitVec 32) (shift : ℕ) : BitVec 8 := (value >>> shift).setWidth 8

/-- `__rt_ffs`: the number of the first bit set, from 1, or 0. -/
def rtFfs (value : BitVec 32) : ℕ :=
  if value = 0 then 0
  else if byteOf value 0 ≠ 0 then lowestBitBitmap.getD (byteOf value 0).toNat 0 + 1
  else if byteOf value 8 ≠ 0 then lowestBitBitmap.getD (byteOf value 8).toNat 0 + 9
  else if byteOf value 16 ≠ 0 then lowestBitBitmap.getD (byteOf value 16).toNat 0 + 17
  else lowestBitBitmap.getD (byteOf value 24).toNat 0 + 25

/-- The states of a thread. -/
inductive Stat where
  | init
  | ready
  | suspend
  | close
  deriving DecidableEq, Repr

/-- The error numbers. -/
inductive Err where
  | ok
  | error
  | timeout
  deriving DecidableEq, Repr

/-- `struct rt_thread`; does its timer run, and is it a system object without a cleanup function? -/
structure Thread where
  stat : Stat
  initPriority : UInt8
  currentPriority : UInt8
  number : UInt8
  highMask : BitVec 8
  numberMask : BitVec 32
  error : Err
  timer : Bool
  detaches : Bool
  deriving DecidableEq, Repr

def Thread.init (priority : UInt8) (detaches : Bool) : Thread where
  stat := .init
  initPriority := priority
  currentPriority := priority
  number := 0
  highMask := 0
  numberMask := 0
  error := .ok
  timer := false
  detaches := detaches

/-- The attributes of a priority. -/
def Thread.withPriority (thread : Thread) (priority : UInt8) : Thread :=
  { thread with
    currentPriority := priority
    number := priority >>> 3
    numberMask := 1#32 <<< (priority >>> 3).toNat
    highMask := 1#8 <<< (priority &&& 7).toNat }

abbrev Tid := ℕ

/-- A ready list, a suspend list, or the closed threads. -/
inductive ListHead where
  | ready (priority : UInt8)
  | suspend (object : ℕ)
  | defunct
  deriving DecidableEq, Repr

structure Kernel where
  thread : Tid → Thread
  list : ListHead → List Tid
  readyPriorityGroup : BitVec 32
  readyTable : ℕ → BitVec 8
  currentThread : Option Tid
  currentPriority : UInt8

namespace Kernel

variable (k : Kernel)

/-- A thread is changed. -/
def modify (t : Tid) (f : Thread → Thread) : Kernel :=
  { k with thread := update k.thread t (f (k.thread t)) }

def listRemove (t : Tid) : Kernel := { k with list := fun head => (k.list head).erase t }

/-- `rt_list_insert_before` the head: at the end of the list. -/
def listInsertBefore (head : ListHead) (t : Tid) : Kernel :=
  { k with list := update k.list head (k.list head ++ [t]) }

/-- `rt_list_insert_after` the head: at its start. -/
def listInsertAfter (head : ListHead) (t : Tid) : Kernel :=
  { k with list := update k.list head (t :: k.list head) }

def scheduleInsertThread (t : Tid) : Kernel :=
  let k := k.modify t fun thread => { thread with stat := .ready }
  let k := k.listInsertBefore (.ready (k.thread t).currentPriority) t
  let number := (k.thread t).number.toNat
  { k with
    readyTable := update k.readyTable number (k.readyTable number ||| (k.thread t).highMask)
    readyPriorityGroup := k.readyPriorityGroup ||| (k.thread t).numberMask }

def scheduleRemoveThread (t : Tid) : Kernel :=
  let k := k.listRemove t
  if k.list (.ready (k.thread t).currentPriority) = [] then
    let number := (k.thread t).number.toNat
    let byte := k.readyTable number &&& ~~~(k.thread t).highMask
    { k with
      readyTable := update k.readyTable number byte
      readyPriorityGroup := if byte = 0
        then k.readyPriorityGroup &&& ~~~(k.thread t).numberMask else k.readyPriorityGroup }
  else k

/-- From the bitmap, if it is not empty. -/
def highestReadyPriority : Option ℕ :=
  if k.readyPriorityGroup = 0 then none
  else
    let number := rtFfs k.readyPriorityGroup - 1
    some (number * 8 + rtFfs ((k.readyTable number).setWidth 32) - 1)

/-- The thread to switch to. -/
def toThread : Option (UInt8 × Tid) := do
  let priority ← k.highestReadyPriority
  let t ← (k.list (.ready (UInt8.ofNat priority))).head?
  return (UInt8.ofNat priority, t)

def systemSchedulerStart : Option Kernel := do
  let next ← k.toThread
  return { k with currentThread := some next.2 }

/-- `rt_schedule`, unlocked and with a current thread. -/
def schedule : Option Kernel := do
  let next ← k.toThread
  let current ← k.currentThread
  if next.2 ≠ current then
    return { k with currentPriority := next.1, currentThread := some next.2 }
  else
    return k

/-! ## Threads -/

def threadSuspend (t : Tid) : Kernel × Err :=
  if (k.thread t).stat ≠ .ready then (k, .error)
  else
    let k := k.modify t fun thread => { thread with stat := .suspend }
    let k := k.scheduleRemoveThread t
    (k.modify t fun thread => { thread with timer := false }, .ok)

def threadResume (t : Tid) : Kernel × Err :=
  if (k.thread t).stat ≠ .suspend then (k, .error)
  else
    let k := k.listRemove t
    let k := k.modify t fun thread => { thread with timer := false }
    (k.scheduleInsertThread t, .ok)

def threadStartup (t : Tid) : Option Kernel :=
  if (k.thread t).stat ≠ .init then none
  else
    let k := k.modify t fun thread =>
      { thread.withPriority thread.initPriority with stat := .suspend }
    let k := (k.threadResume t).1
    if k.currentThread ≠ none then k.schedule else some k

/-- `rt_thread_yield`, if there is another thread. -/
def threadYield : Option Kernel := do
  let t ← k.currentThread
  let head := ListHead.ready (k.thread t).currentPriority
  if (k.thread t).stat = .ready ∧ 2 ≤ (k.list head).length then
    ((k.listRemove t).listInsertBefore head t).schedule
  else
    return k

/-- `rt_thread_sleep` up to the switch to another thread. -/
def threadSleep : Option Kernel := do
  let t ← k.currentThread
  let k := (k.threadSuspend t).1
  (k.modify t fun thread => { thread with timer := true }).schedule

/-- The rest of `rt_thread_sleep`, when the thread runs again. -/
def threadSleepReturn : Option Kernel := do
  let t ← k.currentThread
  return k.modify t fun thread =>
    if thread.error = .timeout then { thread with error := .ok } else thread

/-- `rt_thread_control` with `RT_THREAD_CTRL_CHANGE_PRIORITY`. -/
def threadChangePriority (t : Tid) (priority : UInt8) : Kernel :=
  if (k.thread t).stat = .ready then
    ((k.scheduleRemoveThread t).modify t (·.withPriority priority)).scheduleInsertThread t
  else k.modify t (·.withPriority priority)

def threadTimeout (t : Tid) : Option Kernel :=
  if (k.thread t).stat ≠ .suspend then none
  else
    let k := k.modify t fun thread => { thread with error := .timeout }
    ((k.listRemove t).scheduleInsertThread t).schedule

/-- The timer of a thread expires. -/
def timerExpires (t : Tid) : Option Kernel :=
  if (k.thread t).timer = true then
    (k.modify t fun thread => { thread with timer := false }).threadTimeout t
  else some k

def threadExit : Option Kernel := do
  let t ← k.currentThread
  let k := k.scheduleRemoveThread t
  let k := k.modify t fun thread => { thread with stat := .close, timer := false }
  if (k.thread t).detaches = true then k.schedule else (k.listInsertAfter .defunct t).schedule

inductive Call where
  | schedulerStart
  | startup (t : Tid)
  | suspend (t : Tid)
  | resume (t : Tid)
  | yield
  | sleep
  | sleepReturn
  | timeout (t : Tid)
  | changePriority (t : Tid) (priority : UInt8)
  | exit
  | schedule
  deriving DecidableEq, Repr

def call : Call → Option Kernel
  | .schedulerStart => k.systemSchedulerStart
  | .startup t => k.threadStartup t
  | .suspend t => some (k.threadSuspend t).1
  | .resume t => some (k.threadResume t).1
  | .yield => k.threadYield
  | .sleep => k.threadSleep
  | .sleepReturn => k.threadSleepReturn
  | .timeout t => k.timerExpires t
  | .changePriority t priority => some (k.threadChangePriority t priority)
  | .exit => k.threadExit
  | .schedule => k.schedule

/-- `rt_system_scheduler_init`, with initialized threads. -/
def boot (thread : Tid → UInt8 × Bool) : Kernel where
  thread t := Thread.init (thread t).1 (thread t).2
  list _ := []
  readyPriorityGroup := 0
  readyTable _ := 0
  currentThread := none
  currentPriority := 255

end Kernel

end Tm4cPilot.Rtt
