import Tm4cPilot.Rtt.Ipc

/-!
# RT-Thread events

`rt_event_send` and `rt_event_recv`.  One send looks at all the waiters in order, and each one it
wakes may clear bits for the later ones.
-/

namespace Tm4cPilot.Rtt

open Function Option BitVec Run

def eventFlagAnd : BitVec 8 := 0x01

def eventFlagOr : BitVec 8 := 0x02

def eventFlagClear : BitVec 8 := 0x04

/-- `struct rt_event`; the kernel has its suspend list. -/
structure EventObject where
  set : BitVec 32
  flag : IpcFlag
  deriving DecidableEq, Repr

/-- The events, and the `event_set` and `event_info` of the threads. -/
structure Events where
  kernel : Kernel
  event : ℕ → EventObject
  eventSet : Tid → BitVec 32
  eventInfo : Tid → BitVec 8

namespace Events

variable (s : Events)

/-- The set of an event is written. -/
def setEvent (n : ℕ) (set : BitVec 32) : Events :=
  { s with event := update s.event n { s.event n with set := set } }

/-- A satisfied waiter is resumed. -/
def resumeWaiter (n : ℕ) (t : Tid) : Events :=
  let s := if s.eventInfo t &&& eventFlagClear ≠ 0
    then s.setEvent n ((s.event n).set &&& ~~~s.eventSet t) else s
  { s with kernel := (s.kernel.threadResume t).1 }

/-- The body of the loop of `rt_event_send`, for one waiter. -/
def sendTo (n : ℕ) (s : Events) (t : Tid) : Events :=
  if s.eventInfo t &&& eventFlagAnd ≠ 0 then
    if s.eventSet t &&& (s.event n).set = s.eventSet t then s.resumeWaiter n t else s
  else if s.eventInfo t &&& eventFlagOr ≠ 0 then
    if s.eventSet t &&& (s.event n).set ≠ 0 then
      let s := { s with
        eventSet := update s.eventSet t (s.eventSet t &&& (s.event n).set) }
      s.resumeWaiter n t
    else s
  else s

/-- `rt_event_send` up to the switch, through the list as it was. -/
def eventSend (n : ℕ) (set : BitVec 32) : Events × Err :=
  if set = 0 then (s, .error)
  else
    let s := s.setEvent n ((s.event n).set ||| set)
    ((s.kernel.list (.suspend n)).foldl (sendTo n) s, .ok)

/-- The check of `rt_event_recv`. -/
def eventStatus (n : ℕ) (set : BitVec 32) (option : BitVec 8) : Option Bool :=
  if option &&& eventFlagAnd ≠ 0 then some ((s.event n).set &&& set = set)
  else if option &&& eventFlagOr ≠ 0 then some ((s.event n).set &&& set ≠ 0)
  else none

/-- `rt_event_recv` up to the switch: its result, or nothing yet. -/
def eventRecv (n : ℕ) (t : Tid) (set : BitVec 32) (option : BitVec 8) (timeout : ℤ) :
    Option (Events × Option (Err × Option (BitVec 32))) :=
  if set = 0 then some (s, some (.error, none))
  else do
    let k := s.kernel.modify t fun thread => { thread with error := .ok }
    let status ← s.eventStatus n set option
    if status = true then
      let recved := (s.event n).set &&& set
      let s := if option &&& eventFlagClear ≠ 0
        then s.setEvent n ((s.event n).set &&& ~~~set) else s
      return ({ s with kernel := k }, some (.ok, some recved))
    else if timeout = 0 then
      return ({ s with kernel := k.modify t fun thread => { thread with error := .timeout } },
        some (.timeout, none))
    else
      return ({ s with
        eventSet := update s.eventSet t set
        eventInfo := update s.eventInfo t option
        kernel := k.ipcWait n t (s.event n).flag timeout }, none)

/-- What `rt_event_recv` returns after a wait. -/
def eventRecvReturn (t : Tid) : Err × Option (BitVec 32) :=
  if (s.kernel.thread t).error ≠ .ok then ((s.kernel.thread t).error, none)
  else ((s.kernel.thread t).error, some (s.eventSet t))

/-- The set has what a waiter with these options waits for. -/
def Satisfied (info : BitVec 8) (wanted set : BitVec 32) : Prop :=
  if info &&& eventFlagAnd ≠ 0 then wanted &&& set = wanted
  else info &&& eventFlagOr ≠ 0 ∧ wanted &&& set ≠ 0
deriving Decidable

variable {wanted set : BitVec 32}

theorem Satisfied.of_and {info : BitVec 8} {mask : BitVec 32}
    (h : Satisfied info wanted (set &&& mask)) : Satisfied info wanted set := by
  unfold Satisfied at h ⊢
  split_ifs at h ⊢ with all
  · calc wanted &&& set = wanted &&& (set &&& mask) &&& set := by rw [h]
      _ = wanted &&& (set &&& mask) := by
        rw [BitVec.and_assoc, BitVec.and_comm set mask, BitVec.and_assoc, BitVec.and_self]
      _ = wanted := h
  · refine ⟨h.1, fun none => h.2 ?_⟩
    rw [← BitVec.and_assoc, none]
    exact zero_and

variable {s} {n : ℕ} {t : Tid}

variable {option : BitVec 8}

theorem eventStatus_eq {status : Bool} (h : s.eventStatus n set option = some status) :
    status = true ↔ Satisfied option set (s.event n).set := by
  unfold eventStatus at h
  unfold Satisfied
  rw [and_comm set]
  split_ifs at h with all some
  · rw [← some.inj h, if_pos all, decide_eq_true_iff]
  · rw [← Option.some.inj h, if_neg all, decide_eq_true_iff]
    exact (and_iff_right some).symm

/-- A woken waiter has received its bits, which are cleared if it asked for that. -/
structure Served (s : Events) (n : ℕ) (t : Tid) (s' : Events) : Prop where
  kernel : s'.kernel = (s.kernel.threadResume t).1
  info : s'.eventInfo = s.eventInfo
  received : s'.eventSet = update s.eventSet t (s.eventSet t &&& (s.event n).set)
  elsewhere : ∀ m, m ≠ n → s'.event m = s.event m
  here : (s'.event n).set = if s.eventInfo t &&& eventFlagClear ≠ 0
    then (s.event n).set &&& ~~~(s.eventSet t &&& (s.event n).set) else (s.event n).set

theorem served_resumeWaiter (s : Events) (n : ℕ) (t : Tid) :
    s.Served n t (resumeWaiter { s with
      eventSet := update s.eventSet t (s.eventSet t &&& (s.event n).set) } n t) := by
  unfold resumeWaiter
  by_cases clear : s.eventInfo t &&& eventFlagClear ≠ 0
  · rw [if_pos clear]
    exact ⟨rfl, rfl, rfl, fun m other => by simp [setEvent, other],
      by rw [if_pos clear]; simp [setEvent]⟩
  · rw [if_neg clear]
    exact ⟨rfl, rfl, rfl, fun _ _ => rfl, by rw [if_neg clear]⟩

theorem sendTo_of_satisfied (h : Satisfied (s.eventInfo t) (s.eventSet t) (s.event n).set) :
    s.Served n t (sendTo n s t) := by
  have served := served_resumeWaiter s n t
  unfold Satisfied at h
  unfold sendTo
  by_cases all : s.eventInfo t &&& eventFlagAnd ≠ 0
  · rw [if_pos all] at h ⊢
    -- the set has all the bits, so that receiving them changes nothing
    rw [if_pos h]
    rwa [h, update_eq_self] at served
  · rw [if_neg all] at h ⊢
    rw [if_pos h.1, if_pos h.2]
    exact served

theorem sendTo_of_not_satisfied (h : ¬ Satisfied (s.eventInfo t) (s.eventSet t) (s.event n).set) :
    sendTo n s t = s := by
  unfold Satisfied at h
  unfold sendTo
  by_cases all : s.eventInfo t &&& eventFlagAnd ≠ 0
  · rw [if_pos all] at h ⊢
    rw [if_neg h]
  · rw [if_neg all] at h ⊢
    split_ifs with some bits
    · exact absurd ⟨some, bits⟩ h
    · rfl
    · rfl

/-- No waiter is satisfied. -/
def Unsatisfied (s : Events) : Prop :=
  ∀ n, ∀ t ∈ s.kernel.list (.suspend n),
    ¬ Satisfied (s.eventInfo t) (s.eventSet t) (s.event n).set

/-- Only waiters still to come can be satisfied. -/
structure Scanning (n : ℕ) (rest : List Tid) (s : Events) : Prop where
  parked : s.kernel.Parked
  linked : ∀ t ∈ rest, t ∈ s.kernel.list (.suspend n)
  nodup : rest.Nodup
  looked : ∀ m, ∀ t ∈ s.kernel.list (.suspend m),
    m = n ∧ t ∈ rest ∨ ¬ Satisfied (s.eventInfo t) (s.eventSet t) (s.event m).set

theorem Scanning.next {rest : List Tid} (scanning : Scanning n (t :: rest) s) :
    Scanning n rest (sendTo n s t) := by
  obtain ⟨fresh, nodup⟩ := List.nodup_cons.mp scanning.nodup
  by_cases satisfied : Satisfied (s.eventInfo t) (s.eventSet t) (s.event n).set
  · have served := sendTo_of_satisfied satisfied
    have wakes : s.kernel.Wakes t _ (s.kernel.threadResume t).1 := Kernel.wakes_threadResume
      (scanning.parked.suspended n t (scanning.linked t List.mem_cons_self))
    rw [← served.kernel] at wakes
    refine ⟨scanning.parked.wakes wakes, fun u inRest => ?_, nodup, fun m u inList => ?_⟩
    · have other : u ≠ t := by
        rintro rfl
        exact fresh inRest
      rw [wakes.list, List.mem_erase_of_ne other]
      exact scanning.linked u (List.mem_cons_of_mem t inRest)
    · obtain ⟨other, before⟩ := wakes.other scanning.parked inList
      rw [served.info, served.received, update_of_ne other]
      rcases scanning.looked m u before with ⟨isN, waits⟩ | unsatisfied
      · exact Or.inl ⟨isN, (List.mem_cons.mp waits).resolve_left other⟩
      · refine Or.inr fun satisfied' => unsatisfied ?_
        by_cases same : m = n
        · subst same
          rw [served.here] at satisfied'
          split_ifs at satisfied'
          · exact satisfied'.of_and
          · exact satisfied'
        · rwa [served.elsewhere m same] at satisfied'
  · rw [sendTo_of_not_satisfied satisfied]
    refine ⟨scanning.parked, fun u inRest => scanning.linked u (List.mem_cons_of_mem t inRest), nodup,
      fun m u inList => ?_⟩
    rcases scanning.looked m u inList with ⟨isN, waits⟩ | unsatisfied
    · rcases List.mem_cons.mp waits with rfl | inRest
      · exact Or.inr (isN ▸ satisfied)
      · exact Or.inl ⟨isN, inRest⟩
    · exact Or.inr unsatisfied

theorem Scanning.foldl {rest : List Tid} (scanning : Scanning n rest s) :
    Scanning n [] (rest.foldl (sendTo n) s) := by
  induction rest generalizing s with
  | nil => exact scanning
  | cons t rest ih => exact ih scanning.next

theorem Unsatisfied.send (unsatisfied : s.Unsatisfied) (parked : s.kernel.Parked) (n : ℕ)
    (set : BitVec 32) :
    (s.eventSend n set).1.kernel.Parked ∧ (s.eventSend n set).1.Unsatisfied := by
  unfold eventSend
  split_ifs
  · exact ⟨parked, unsatisfied⟩
  · have start : Scanning n (s.kernel.list (.suspend n)) (s.setEvent n ((s.event n).set ||| set)) := by
      refine ⟨parked, fun _ inList => inList, parked.nodup n, fun m t inList => ?_⟩
      by_cases same : m = n
      · exact Or.inl ⟨same, same ▸ inList⟩
      · refine Or.inr ?_
        simpa [setEvent, same] using unsatisfied m t inList
    have scanned := start.foldl
    exact ⟨scanned.parked, fun m t inList => (scanned.looked m t inList).resolve_left (by simp)⟩

/-! ## Receiving -/

/-- What `rt_event_recv` does with a set that is not empty. -/
inductive Recv (s : Events) (n : ℕ) (t : Tid) (set : BitVec 32) (option : BitVec 8) (timeout : ℤ) :
    Events × Option (Err × Option (BitVec 32)) → Prop
  | instant (satisfied : Satisfied option set (s.event n).set) :
      Recv s n t set option timeout ({ (if option &&& eventFlagClear ≠ 0
        then s.setEvent n ((s.event n).set &&& ~~~set) else s) with
        kernel := s.kernel.modify t fun thread => { thread with error := .ok } },
        some (.ok, some ((s.event n).set &&& set)))
  | refused (unsatisfied : ¬ Satisfied option set (s.event n).set) (zero : timeout = 0) :
      Recv s n t set option timeout ({ s with
        kernel := (s.kernel.modify t fun thread => { thread with error := .ok }).modify t
          fun thread => { thread with error := .timeout } }, some (.timeout, none))
  | waits (unsatisfied : ¬ Satisfied option set (s.event n).set) (patient : timeout ≠ 0) :
      Recv s n t set option timeout ({ s with
        eventSet := update s.eventSet t set
        eventInfo := update s.eventInfo t option
        kernel := (s.kernel.modify t fun thread => { thread with error := .ok }).ipcWait n t
          (s.event n).flag timeout }, none)

variable {timeout : ℤ}

theorem recv_of_eventRecv (nonempty : set ≠ 0)
    {result : Events × Option (Err × Option (BitVec 32))}
    (h : s.eventRecv n t set option timeout = some result) :
    s.Recv n t set option timeout result := by
  unfold eventRecv at h
  rw [if_neg nonempty] at h
  obtain ⟨status, isStatus, h⟩ := bind_eq_some_iff.mp h
  have satisfied := eventStatus_eq isStatus
  split_ifs at h with success clear zero
  · cases some.inj h
    have instant : Recv s n t set option timeout _ := .instant (satisfied.mp success)
    rwa [if_pos clear] at instant
  · cases some.inj h
    have instant : Recv s n t set option timeout _ := .instant (satisfied.mp success)
    rwa [if_neg clear] at instant
  · cases some.inj h
    exact .refused (mt satisfied.mpr success) zero
  · cases some.inj h
    exact .waits (mt satisfied.mpr success) zero

theorem Unsatisfied.of_fewer {s' : Events} (unsatisfied : s.Unsatisfied)
    (lists : s'.kernel.list = s.kernel.list) (sets : s'.eventSet = s.eventSet)
    (infos : s'.eventInfo = s.eventInfo)
    (fewer : ∀ m, ∃ mask, (s'.event m).set = (s.event m).set &&& mask) : s'.Unsatisfied := by
  intro m t inList satisfied
  obtain ⟨mask, isSet⟩ := fewer m
  rw [lists] at inList
  rw [sets, infos, isSet] at satisfied
  exact unsatisfied m t inList satisfied.of_and

theorem Unsatisfied.recv (unsatisfied : s.Unsatisfied) (parked : s.kernel.Parked)
    (ready : (s.kernel.thread t).stat = .ready)
    {result : Events × Option (Err × Option (BitVec 32))}
    (h : s.eventRecv n t set option timeout = some result) :
    result.1.kernel.Parked ∧ result.1.Unsatisfied := by
  by_cases empty : set = 0
  · rw [eventRecv, if_pos empty] at h
    cases some.inj h
    exact ⟨parked, unsatisfied⟩
  have reset : (s.kernel.modify t fun thread => { thread with error := .ok }).Parked :=
    parked.modify t rfl
  cases recv_of_eventRecv empty h with
  | instant satisfied =>
    refine ⟨reset, unsatisfied.of_fewer rfl ?_ ?_ fun m => ?_⟩
    · split_ifs <;> rfl
    · split_ifs <;> rfl
    · by_cases same : m = n
      · subst same
        split_ifs
        · exact ⟨~~~set, by simp [setEvent]⟩
        · exact ⟨(s.event m).set, and_self.symm⟩
      · refine ⟨(s.event m).set, ?_⟩
        rw [BitVec.and_self]
        split_ifs
        · simp [setEvent, same]
        · rfl
  | refused unsatisfied' zero =>
    exact ⟨reset.modify t (f := fun thread => { thread with error := .timeout }) rfl, unsatisfied⟩
  | waits unsatisfied' patient =>
    have ready' : ((s.kernel.modify t fun thread => { thread with error := .ok }).thread t).stat =
        .ready := by simpa using ready
    have parks := reset.ipcWait ready' n (s.event n).flag timeout
    refine ⟨reset.parks (reset.unlinked ready') parks, fun m u inList => ?_⟩
    rcases (parks.mem m u).mp inList with ⟨rfl, rfl⟩ | before
    · simpa using unsatisfied'
    · have other : u ≠ t := by
        rintro rfl
        exact parked.unlinked ready m before
      simpa [other] using unsatisfied m u before

/-! ## Blocking before the send, or receiving after it -/

theorem and_not_and (x y : BitVec 32) : x &&& ~~~(y &&& x) = x &&& ~~~y := by
  ext i inside
  simp only [getElem_and, getElem_not]
  cases x[i] <;> simp

theorem send_of_only (only : s.kernel.list (.suspend n) = [t])
    (suspended : (s.kernel.thread t).stat = .suspend) (ok : (s.kernel.thread t).error = .ok)
    {sent : BitVec 32} (isSent : sent ≠ 0) :
    (((s.eventSend n sent).1.kernel.thread t).stat = .ready ↔
      Satisfied (s.eventInfo t) (s.eventSet t) ((s.event n).set ||| sent)) ∧
    (((s.eventSend n sent).1.kernel.thread t).stat = .ready →
      (s.eventSend n sent).1.eventRecvReturn t =
        (.ok, some (((s.event n).set ||| sent) &&& s.eventSet t)) ∧
      ((s.eventSend n sent).1.event n).set = if s.eventInfo t &&& eventFlagClear ≠ 0
        then ((s.event n).set ||| sent) &&& ~~~s.eventSet t else (s.event n).set ||| sent) := by
  obtain ⟨s₁, isS₁⟩ : ∃ s₁, s₁ = s.setEvent n ((s.event n).set ||| sent) := ⟨_, rfl⟩
  have scan : (s.eventSend n sent).1 = sendTo n s₁ t := by
    unfold eventSend
    rw [if_neg isSent]
    show (s.kernel.list (.suspend n)).foldl _ _ = _
    rw [only, isS₁]
    rfl
  have set : (s₁.event n).set = (s.event n).set ||| sent := by rw [isS₁]; simp [setEvent]
  have kernel : s₁.kernel = s.kernel := by rw [isS₁]; rfl
  have info : s₁.eventInfo = s.eventInfo := by rw [isS₁]; rfl
  have wanted : s₁.eventSet = s.eventSet := by rw [isS₁]; rfl
  rw [scan, ← set, ← info, ← wanted]
  by_cases satisfied : Satisfied (s₁.eventInfo t) (s₁.eventSet t) (s₁.event n).set
  · have served := sendTo_of_satisfied satisfied
    have wakes := Kernel.wakes_threadResume (k := s.kernel) suspended
    rw [← kernel, ← served.kernel] at wakes
    refine ⟨iff_of_true (by rw [wakes.stat, if_pos rfl]) satisfied, fun _ => ⟨?_, ?_⟩⟩
    · have isOk : ((sendTo n s₁ t).kernel.thread t).error = .ok := by
        rw [wakes.error, if_pos rfl, kernel, ok]
      rw [eventRecvReturn, if_neg (not_not_intro isOk), isOk, served.received, update_self,
        BitVec.and_comm]
    · rw [served.here, and_not_and]
  · rw [sendTo_of_not_satisfied satisfied, kernel, suspended]
    exact ⟨iff_of_false (by simp) satisfied, by simp⟩

theorem send_of_nobody (sent : set ≠ 0) (nobody : s.kernel.list (.suspend n) = []) :
    (s.eventSend n set).1 = s.setEvent n ((s.event n).set ||| set) := by
  unfold eventSend
  rw [if_neg sent]
  show (s.kernel.list (.suspend n)).foldl _ _ = _
  rw [nobody]
  rfl

theorem eventRecv_of_satisfied (nonempty : set ≠ 0)
    (satisfied : Satisfied option set (s.event n).set) (t : Tid) (timeout : ℤ) :
    ∃ s', s.eventRecv n t set option timeout = some (s', some (.ok, some ((s.event n).set &&& set))) ∧
      (s'.event n).set = if option &&& eventFlagClear ≠ 0 then (s.event n).set &&& ~~~set
        else (s.event n).set := by
  have status : s.eventStatus n set option = some true := by
    unfold Satisfied at satisfied
    rw [and_comm set] at satisfied
    unfold eventStatus
    by_cases all : option &&& eventFlagAnd ≠ 0
    · rw [if_pos all] at satisfied ⊢
      rw [decide_eq_true satisfied]
    · rw [if_neg all] at satisfied ⊢
      rw [if_pos satisfied.1, decide_eq_true satisfied.2]
  unfold eventRecv
  rw [if_neg nonempty, status]
  refine ⟨_, rfl, ?_⟩
  split_ifs
  · simp [setEvent]
  · rfl

section

variable (parked : s.kernel.Parked) (ready : (s.kernel.thread t).stat = .ready)
  (nobody : s.kernel.list (.suspend n) = []) (nonempty : wanted ≠ 0) {s₁ : Events}
  (blocks : s.eventRecv n t wanted option timeout = some (s₁, none))

include parked ready nobody nonempty blocks

theorem eventRecv_blocks :
    s₁.kernel.list (.suspend n) = [t] ∧ (s₁.kernel.thread t).stat = .suspend ∧
      (s₁.kernel.thread t).error = .ok ∧ s₁.eventInfo t = option ∧ s₁.eventSet t = wanted ∧
      s₁.event = s.event := by
  have reset : (s.kernel.modify t fun thread => { thread with error := .ok }).Parked :=
    parked.modify t rfl
  cases recv_of_eventRecv nonempty blocks with
  | waits unsatisfied patient =>
    have parks := reset.ipcWait (t := t) (by simpa using ready) n (s.event n).flag timeout
    refine ⟨?_, by rw [parks.stat, if_pos rfl], by rw [parks.error, if_pos rfl],
      update_self .., update_self .., rfl⟩
    refine List.perm_singleton.mp ((List.perm_ext_iff_of_nodup (parks.nodup n)
      (List.nodup_singleton t)).mpr fun u => ?_)
    rw [parks.mem]
    simp [nobody]

/-- The only waiter receives from a send what a call just after it would have given, and leaves the
same set. -/
theorem recv_then_send {sent : BitVec 32} (isSent : sent ≠ 0)
    (woken : ((s₁.eventSend n sent).1.kernel.thread t).stat = .ready) (timeout' : ℤ) :
    ∃ s₂, (s.eventSend n sent).1.eventRecv n t wanted option timeout' =
        some (s₂, some ((s₁.eventSend n sent).1.eventRecvReturn t)) ∧
      (s₂.event n).set = ((s₁.eventSend n sent).1.event n).set := by
  obtain ⟨only, suspended, ok, info, wants, events⟩ :=
    eventRecv_blocks parked ready nobody nonempty blocks
  obtain ⟨woken_iff, outcome⟩ := send_of_only only suspended ok isSent
  obtain ⟨returns, set⟩ := outcome woken
  have satisfied := woken_iff.mp woken
  have sentSet : ((s.eventSend n sent).1.event n).set = (s.event n).set ||| sent := by
    rw [send_of_nobody isSent nobody]
    simp [setEvent]
  rw [info, wants, events, ← sentSet] at satisfied
  rw [wants, events, ← sentSet] at returns
  rw [info, wants, events, ← sentSet] at set
  rw [returns, set]
  exact eventRecv_of_satisfied nonempty satisfied t timeout'

end

end Events

/-! ## Interleavings -/

/-- The events, and the threads that are receiving. -/
structure Receivers where
  events : Events
  receiving : Tid → Bool

inductive Receivers.Event where
  | send (n : ℕ) (set : BitVec 32)
  | recv (t : Tid) (n : ℕ) (set : BitVec 32) (option : BitVec 8) (timeout : ℤ)
  | recvReturn (t : Tid)
  | timeout (t : Tid)
  deriving DecidableEq, Repr

namespace Receivers

variable (l : Receivers)

def step : Event → Option Receivers
  | .send n set => some { l with events := (l.events.eventSend n set).1 }
  | .recv t n set option timeout =>
    if (l.events.kernel.thread t).stat = .ready ∧ l.receiving t = false then
      (l.events.eventRecv n t set option timeout).map fun result =>
        ⟨result.1, update l.receiving t result.2.isNone⟩
    else none
  | .recvReturn t =>
    if (l.events.kernel.thread t).stat = .ready then
      some { l with receiving := update l.receiving t false }
    else none
  | .timeout t =>
    (l.events.kernel.expires t).map fun kernel => { l with events := { l.events with kernel } }

variable {l} {l' : Receivers}

theorem step_unsatisfied (parked : l.events.kernel.Parked) (unsatisfied : l.events.Unsatisfied)
    {e : Event} (h : l.step e = some l') :
    l'.events.kernel.Parked ∧ l'.events.Unsatisfied := by
  cases e with
  | send n set =>
    cases some.inj h
    exact unsatisfied.send parked n set
  | recv t n set option timeout =>
    rw [step] at h
    split_ifs at h with ready
    obtain ⟨result, received, rfl⟩ := map_eq_some_iff.mp h
    exact unsatisfied.recv parked ready.1 received
  | recvReturn t =>
    rw [step] at h
    split_ifs at h with ready
    cases some.inj h
    exact ⟨parked, unsatisfied⟩
  | timeout t =>
    obtain ⟨k, expired, rfl⟩ := map_eq_some_iff.mp h
    obtain ⟨-, wakes⟩ := Kernel.wakes_expires expired
    exact ⟨parked.wakes wakes, fun m u inList => unsatisfied m u (wakes.other parked inList).2⟩

/-- No suspended thread's condition is satisfied; and blocking alone until a send comes is as good
as receiving after it. -/
theorem no_lost_wakeup (events : Events) (idle : ∀ n, events.kernel.list (.suspend n) = []) :
    (∀ inputs : List Event, ∀ l ∈ run (lift step) (some ⟨events, fun _ => false⟩) inputs,
      l.events.Unsatisfied) ∧
    ∀ (s s₁ : Events) (n : ℕ) (t : Tid) (wanted sent : BitVec 32) (option : BitVec 8)
      (timeout timeout' : ℤ), s.kernel.Parked → (s.kernel.thread t).stat = .ready →
      s.kernel.list (.suspend n) = [] → wanted ≠ 0 → sent ≠ 0 →
      s.eventRecv n t wanted option timeout = some (s₁, none) →
      ((s₁.eventSend n sent).1.kernel.thread t).stat = .ready →
      ∃ s₂, (s.eventSend n sent).1.eventRecv n t wanted option timeout' =
          some (s₂, some ((s₁.eventSend n sent).1.eventRecvReturn t)) ∧
        (s₂.event n).set = ((s₁.eventSend n sent).1.event n).set := by
  constructor
  · intro inputs l reached
    have start : events.kernel.Parked ∧ events.Unsatisfied :=
      ⟨.of_empty idle, by simp [Events.Unsatisfied, idle]⟩
    exact (lift_invariant (I := fun l : Receivers => l.events.kernel.Parked ∧
      l.events.Unsatisfied) (fun l e l' holds h => step_unsatisfied holds.1 holds.2 h) start inputs l
      reached).2
  · intro s s₁ n t wanted sent option timeout timeout' parked ready nobody nonempty isSent blocks woken
    exact Events.recv_then_send parked ready nobody nonempty blocks isSent woken timeout'

def noEvents : Events where
  kernel := .allReady Locks.threeThreads
  event _ := ⟨0, .fifo⟩
  eventSet _ := 0
  eventInfo _ := 0

/-- The first of two waiters clears the bit, so the second waits on. A third one gets the two bits
that are sent of its three. -/
theorem no_lost_wakeup_cleared :
    (∃ l ∈ run (lift step) (some ⟨noEvents, fun _ => false⟩)
        [.recv 1 0 1 5 (-1), .recv 2 0 3 6 (-1), .send 0 1],
      l.events.Unsatisfied ∧ l.events.kernel.list (.suspend 0) = [2] ∧ (l.events.event 0).set = 0) ∧
    ∃ s₂, (noEvents.eventSend 0 3).1.eventRecv 0 1 7 6 0 = some (s₂, some (.ok, some 3)) := by
  obtain ⟨unsatisfied, immediate⟩ := no_lost_wakeup noEvents fun _ => rfl
  constructor
  · have state : (run (lift step) (some ⟨noEvents, fun _ => false⟩)
        [.recv 1 0 1 5 (-1), .recv 2 0 3 6 (-1), .send 0 1]).map
        (fun l => (l.events.kernel.list (.suspend 0), (l.events.event 0).set)) = some ([2], 0) := by
      decide +kernel
    obtain ⟨l, reached, values⟩ := map_eq_some_iff.mp state
    simp only [Prod.mk.injEq] at values
    exact ⟨l, reached, unsatisfied _ l reached, values⟩
  · obtain ⟨s₁, blocks⟩ : ∃ s₁, noEvents.eventRecv 0 1 7 6 (-1) = some (s₁, none) := ⟨_, rfl⟩
    have outcome : (noEvents.eventRecv 0 1 7 6 (-1)).map (fun result =>
        (((result.1.eventSend 0 3).1.kernel.thread 1).stat,
          (result.1.eventSend 0 3).1.eventRecvReturn 1)) = some (.ready, .ok, some 3) := by
      decide +kernel
    rw [blocks] at outcome
    simp only [map_some, some.injEq, Prod.mk.injEq] at outcome
    obtain ⟨s₂, received, -⟩ := immediate noEvents s₁ 0 1 7 3 6 (-1) 0
      (.of_empty fun _ => rfl) rfl rfl (by decide) (by decide) blocks outcome.1
    exact ⟨s₂, by rw [received, outcome.2]⟩

end Receivers

end Tm4cPilot.Rtt
