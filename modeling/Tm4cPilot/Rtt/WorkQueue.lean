import Tm4cPilot.Rtt.Ipc

/-!
# RT-Thread work queues

`workqueue.c`, one section with disabled interrupts at a time.  The worker tests the list and
suspends itself in two steps, and a submission inserts a work and resumes the worker in two.  Then
the first node is removed without a test: for an empty list the head, and the worker calls what it
finds there.
-/

namespace Tm4cPilot.Rtt

open List Option Function Run

/-! ## The worker's state -/

/-- What `rt_thread_suspend` makes of the state of a thread. -/
def Stat.suspended : Stat → Stat
  | .ready => .suspend
  | stat => stat

/-- What `rt_thread_resume` makes of the state of a thread. -/
def Stat.resumed : Stat → Stat
  | .suspend => .ready
  | stat => stat

theorem Stat.resumed_of_ne {stat : Stat} (h : stat ≠ .suspend) : stat.resumed = stat := by
  cases stat with
  | suspend => exact absurd rfl h
  | _ => rfl

/-- A pointer to a work, to null or to the head of the list. -/
inductive WorkPtr (ω : Type) where
  | null
  | head
  | work (w : ω)
  deriving DecidableEq, Repr

/-- Where the worker is in `_workqueue_thread_entry`. -/
inductive WorkerPc (ω : Type) where
  | test
  | suspend
  | take
  | run (work : WorkPtr ω)
  | complete
  deriving DecidableEq, Repr

/-- Outside of a call, before `rt_thread_resume`, or waiting. -/
inductive ClientPc where
  | idle
  | resuming
  | waiting
  deriving DecidableEq, Repr

/-- `struct rt_workqueue` with its threads. -/
structure WorkQueue (ω κ : Type) where
  workList : List ω
  workCurrent : WorkPtr ω
  stat : Stat
  worker : WorkerPc ω
  client : κ → ClientPc

inductive WorkEvent (ω κ : Type) where
  | worker
  | dowork (c : κ) (w : ω)
  | criticalWork (c : κ) (w : ω)
  | resume (c : κ)
  | cancelWork (c : κ) (w : ω)
  | cancelWorkSync (c : κ) (w : ω)
  | cancelAllWork (c : κ)
  deriving DecidableEq, Repr

namespace WorkQueue

variable {ω κ : Type}

def create : WorkQueue ω κ where
  workList := []
  workCurrent := .null
  stat := .ready
  worker := .test
  client _ := .idle

variable (q : WorkQueue ω κ)

/-- The first node. -/
def next : WorkPtr ω :=
  match q.workList with
  | [] => .head
  | w :: _ => .work w

/-- `_workqueue_work_completion`: the waiting clients are resumed. -/
def workCompletion : WorkQueue ω κ :=
  { q with client := fun c => if q.client c = .waiting then .idle else q.client c }

/-- A step of the worker, unknown after a call of the head. -/
def work : Option (WorkQueue ω κ) :=
  match q.worker with
  | .test => some { q with worker := if q.workList.isEmpty then .suspend else .take }
  | .suspend => some { q with stat := q.stat.suspended, worker := .take }
  | .take => some { q with
      workList := q.workList.tail
      workCurrent := q.next
      worker := .run q.next }
  | .run (.work _) => some { q with workCurrent := .null, worker := .complete }
  | .run .head | .run .null => none
  | .complete => some { q.workCompletion with worker := .test }

/-- The steps of the worker. -/
inductive Works (q : WorkQueue ω κ) : WorkQueue ω κ → Prop
  | test (pc : q.worker = .test) :
    Works q { q with worker := if q.workList.isEmpty then .suspend else .take }
  | suspend (pc : q.worker = .suspend) :
    Works q { q with stat := q.stat.suspended, worker := .take }
  | take (pc : q.worker = .take) :
    Works q { q with workList := q.workList.tail, workCurrent := q.next, worker := .run q.next }
  | run (w : ω) (pc : q.worker = .run (.work w)) :
    Works q { q with workCurrent := .null, worker := .complete }
  | complete (pc : q.worker = .complete) : Works q { q.workCompletion with worker := .test }

theorem works_of_work {q q' : WorkQueue ω κ} (worked : q.work = some q') : q.Works q' := by
  rw [work] at worked
  cases pc : q.worker with
  | run p =>
    rw [pc] at worked
    cases p with
    | work w => exact some.inj worked ▸ .run w pc
    | head | null => cases worked
  | test => rw [pc] at worked; exact some.inj worked ▸ .test pc
  | suspend => rw [pc] at worked; exact some.inj worked ▸ .suspend pc
  | take => rw [pc] at worked; exact some.inj worked ▸ .take pc
  | complete => rw [pc] at worked; exact some.inj worked ▸ .complete pc

variable [DecidableEq ω] [DecidableEq κ]

/-- The first section of a submission. -/
def submit (c : κ) (w : ω) : WorkQueue ω κ :=
  if q.workCurrent = .work w then q
  else { q with
    workList := q.workList.erase w ++ [w]
    client := if q.workCurrent = .null then update q.client c .resuming else q.client }

def dowork (c : κ) (w : ω) : WorkQueue ω κ := q.submit c w

def criticalWork (c : κ) (w : ω) : WorkQueue ω κ := q.submit c w

/-- `rt_thread_resume` of the worker. -/
def resume (c : κ) : WorkQueue ω κ :=
  { q with stat := q.stat.resumed, client := update q.client c .idle }

def cancelWork (w : ω) : WorkQueue ω κ :=
  if q.workCurrent = .work w then q else { q with workList := q.workList.erase w }

def cancelWorkSync (c : κ) (w : ω) : WorkQueue ω κ :=
  if q.workCurrent = .work w then { q with client := update q.client c .waiting }
  else { q with workList := q.workList.erase w }

def cancelAllWork : WorkQueue ω κ := { q with workList := [] }

def step : WorkEvent ω κ → Option (WorkQueue ω κ)
  | .worker => if q.stat = .ready then q.work else none
  | .dowork c w => if q.client c = .idle then some (q.dowork c w) else none
  | .criticalWork c w => if q.client c = .idle then some (q.criticalWork c w) else none
  | .resume c => if q.client c = .resuming then some (q.resume c) else none
  | .cancelWork c w => if q.client c = .idle then some (q.cancelWork w) else none
  | .cancelWorkSync c w => if q.client c = .idle then some (q.cancelWorkSync c w) else none
  | .cancelAllWork c => if q.client c = .idle then some q.cancelAllWork else none

inductive Moves (q : WorkQueue ω κ) : WorkEvent ω κ → WorkQueue ω κ → Prop
  | worker {q' : WorkQueue ω κ} (ready : q.stat = .ready) (works : q.Works q') : Moves q .worker q'
  | dowork {c : κ} {w : ω} (idle : q.client c = .idle) : Moves q (.dowork c w) (q.submit c w)
  | criticalWork {c : κ} {w : ω} (idle : q.client c = .idle) :
    Moves q (.criticalWork c w) (q.submit c w)
  | resume {c : κ} (resuming : q.client c = .resuming) : Moves q (.resume c) (q.resume c)
  | cancelWork {c : κ} {w : ω} (idle : q.client c = .idle) :
    Moves q (.cancelWork c w) (q.cancelWork w)
  | cancelWorkSync {c : κ} {w : ω} (idle : q.client c = .idle) :
    Moves q (.cancelWorkSync c w) (q.cancelWorkSync c w)
  | cancelAllWork {c : κ} (idle : q.client c = .idle) : Moves q (.cancelAllWork c) q.cancelAllWork

variable {q} {q' : WorkQueue ω κ}

theorem moves_of_step {e : WorkEvent ω κ} (stepped : q.step e = some q') : q.Moves e q' := by
  cases e with
  | worker =>
    obtain ⟨ready, worked⟩ := ite_none_right_eq_some.mp stepped
    exact .worker ready (works_of_work worked)
  | dowork c w =>
    obtain ⟨idle, same⟩ := ite_none_right_eq_some.mp stepped
    exact some.inj same ▸ .dowork idle
  | criticalWork c w =>
    obtain ⟨idle, same⟩ := ite_none_right_eq_some.mp stepped
    exact some.inj same ▸ .criticalWork idle
  | resume c =>
    obtain ⟨resuming, same⟩ := ite_none_right_eq_some.mp stepped
    exact some.inj same ▸ .resume resuming
  | cancelWork c w =>
    obtain ⟨idle, same⟩ := ite_none_right_eq_some.mp stepped
    exact some.inj same ▸ .cancelWork idle
  | cancelWorkSync c w =>
    obtain ⟨idle, same⟩ := ite_none_right_eq_some.mp stepped
    exact some.inj same ▸ .cancelWorkSync idle
  | cancelAllWork c =>
    obtain ⟨idle, same⟩ := ite_none_right_eq_some.mp stepped
    exact some.inj same ▸ .cancelAllWork idle

end WorkQueue

/-- A submission or cancellation that is accepted, or a call. -/
inductive WorkEntry (ω : Type) where
  | submitted (w : ω)
  | cancelled (w : ω)
  | called (work : WorkPtr ω)
  deriving DecidableEq, Repr

namespace WorkQueue

variable {ω κ : Type} [DecidableEq ω] (q : WorkQueue ω κ)

/-- What happens to works in a step. -/
def entries : WorkEvent ω κ → List (WorkEntry ω)
  | .worker => if q.worker = .take then [.called q.next] else []
  | .dowork _ w | .criticalWork _ w => if q.workCurrent = .work w then [] else [.submitted w]
  | .resume _ => []
  | .cancelWork _ w | .cancelWorkSync _ w => if q.workCurrent = .work w then [] else [.cancelled w]
  | .cancelAllWork _ => q.workList.map .cancelled

end WorkQueue

/-- Submitted, and neither cancelled nor called since. -/
def Live {ω : Type} (log : List (WorkEntry ω)) (w : ω) : Prop :=
  ∃ before after, log = before ++ .submitted w :: after ∧
    ∀ entry ∈ after, entry ≠ .cancelled w ∧ entry ≠ .called (.work w)

/-- Only live works are called. -/
def CallsLive {ω : Type} (log : List (WorkEntry ω)) : Prop :=
  ∀ before work after, log = before ++ .called work :: after →
    ∃ w, work = .work w ∧ Live before w

section Log

variable {ω : Type} {log new : List (WorkEntry ω)} {w : ω}

theorem live_append_submitted (log : List (WorkEntry ω)) (w : ω) : Live (log ++ [.submitted w]) w :=
  ⟨log, [], rfl, nofun⟩

theorem Live.append (live : Live log w)
    (kept : ∀ entry ∈ new, entry ≠ .cancelled w ∧ entry ≠ .called (.work w)) :
    Live (log ++ new) w := by
  obtain ⟨before, after, rfl, since⟩ := live
  refine ⟨before, after ++ new, by rw [append_assoc, cons_append], fun entry mem => ?_⟩
  exact (mem_append.mp mem).elim (since entry) (kept entry)

theorem callsLive_nil : CallsLive ([] : List (WorkEntry ω)) := by
  intro before work after same
  exact absurd same.symm (by simp)

theorem CallsLive.append (calls : CallsLive log)
    (more : ∀ before work after, new = before ++ .called work :: after → ∃ w,
    work = .work w ∧ Live (log ++ before) w) : CallsLive (log ++ new) := by
  intro before work after same
  rcases append_eq_append_iff.mp same with ⟨first, rfl, rest⟩ | ⟨first, rfl, rest⟩
  · exact more first work after rest
  · cases first with
    | nil =>
      rw [append_nil] at more
      obtain ⟨w, isWork, live⟩ := more [] work after rest.symm
      exact ⟨w, isWork, by rwa [append_nil] at live⟩
    | cons entry first =>
      obtain ⟨rfl, -⟩ := List.cons.inj rest
      exact calls before work first rfl

theorem CallsLive.append_of_no_call (calls : CallsLive log)
    (quiet : ∀ work, .called work ∉ new) : CallsLive (log ++ new) := by
  refine calls.append fun before work after same => absurd ?_ (quiet work)
  rw [same]
  exact mem_append_right before mem_cons_self

end Log

/-- A work queue with what has happened to the works so far. -/
structure WorkHistory (ω κ : Type) where
  queue : WorkQueue ω κ
  log : List (WorkEntry ω)

/-! ## Only submitted work is called -/

variable {ω κ : Type} {q : WorkQueue ω κ}

namespace WorkHistory

variable {h h' : WorkHistory ω κ}

def start : WorkHistory ω κ := ⟨.create, []⟩

/-- The works are live, and there is one when it is taken. -/
structure Sound (h : WorkHistory ω κ) : Prop where
  nodup : h.queue.workList.Nodup
  live : ∀ w ∈ h.queue.workList, Live h.log w
  calls : CallsLive h.log
  found : h.queue.worker = .take → h.queue.stat = .ready → h.queue.workList ≠ []

theorem sound_start : (start : WorkHistory ω κ).Sound :=
  ⟨nodup_nil, nofun, callsLive_nil, nofun⟩

theorem Sound.shrink (sound : h.Sound) {new : List (WorkEntry ω)}
    (sublist : q.workList.Sublist h.queue.workList)
    (cancels : ∀ entry ∈ new, ∃ w, w ∉ q.workList ∧ entry = .cancelled w)
    (found : q.worker = .take → q.stat = .ready → q.workList ≠ []) :
    Sound ⟨q, h.log ++ new⟩ where
  nodup := sound.nodup.sublist sublist
  live w mem := by
    refine (sound.live w (sublist.subset mem)).append fun entry isNew => ?_
    obtain ⟨v, gone, rfl⟩ := cancels entry isNew
    refine ⟨?_, nofun⟩
    rintro ⟨⟩
    exact gone mem
  calls := by
    refine sound.calls.append_of_no_call fun work isNew => ?_
    obtain ⟨v, -, ⟨⟩⟩ := cancels _ isNew
  found := found

theorem Sound.take (sound : h.Sound) (found : h.queue.workList ≠ [])
    (list : q.workList = h.queue.workList.tail) (running : q.worker ≠ .take) :
    Sound ⟨q, h.log ++ [.called h.queue.next]⟩ := by
  obtain ⟨w, rest, same⟩ := exists_cons_of_ne_nil found
  have next : h.queue.next = .work w := by rw [WorkQueue.next, same]
  have nodup := sound.nodup
  rw [same, tail_cons] at list
  rw [same, nodup_cons] at nodup
  rw [next]
  refine ⟨?_, fun v mem => ?_, ?_, fun taking => absurd taking running⟩
  · rw [list]
    exact nodup.2
  · rw [list] at mem
    refine (sound.live v (by rw [same]; exact mem_cons_of_mem w mem)).append ?_
    intro entry isNew
    rw [mem_singleton.mp isNew]
    refine ⟨nofun, ?_⟩
    rintro ⟨⟩
    exact nodup.1 mem
  · refine sound.calls.append fun before work after isNew => ?_
    obtain ⟨rfl, rfl, rfl⟩ : before = [] ∧ .work w = work ∧ after = [] := by
      cases before with
      | nil => simpa using isNew
      | cons entry before => simp at isNew
    rw [append_nil]
    exact ⟨w, rfl, sound.live w (by rw [same]; exact mem_cons_self)⟩

end WorkHistory

variable [DecidableEq ω]

/-- The worker is resumed for a work, which is not cancelled then. -/
def WorkQueue.Careful (q : WorkQueue ω κ) : WorkEvent ω κ → Prop
  | .resume _ => q.stat = .suspend → q.workList ≠ []
  | .cancelWork _ w | .cancelWorkSync _ w =>
    q.worker = .take → q.stat = .ready → q.workList.erase w ≠ []
  | .cancelAllWork _ => q.worker = .take → q.stat ≠ .ready
  | _ => True

instance (q : WorkQueue ω κ) : DecidablePred q.Careful
  | .resume _ | .cancelWork _ _ | .cancelWorkSync _ _ | .cancelAllWork _ => by
    unfold WorkQueue.Careful
    infer_instance
  | .worker | .dowork _ _ | .criticalWork _ _ => .isTrue trivial

namespace WorkHistory

variable {h h' : WorkHistory ω κ}

theorem Sound.cancel (sound : h.Sound) (w : ω)
    (careful : h.queue.worker = .take → h.queue.stat = .ready → h.queue.workList.erase w ≠ [])
    (list : q.workList = h.queue.workList.erase w)
    (worker : q.worker = h.queue.worker) (stat : q.stat = h.queue.stat) :
    Sound ⟨q, h.log ++ [.cancelled w]⟩ := by
  refine sound.shrink (list ▸ erase_sublist) (fun entry isNew => ?_) ?_
  · exact ⟨w, list ▸ sound.nodup.not_mem_erase, mem_singleton.mp isNew⟩
  · rw [list, worker, stat]
    exact careful

theorem Sound.work (sound : h.Sound) (ready : h.queue.stat = .ready)
    (works : h.queue.Works q) : Sound ⟨q, h.log ++ h.queue.entries .worker⟩ := by
  have quiet (other : h.queue.worker ≠ .take) : h.queue.entries .worker = [] :=
    if_neg other
  cases works with
  | take pc =>
    rw [WorkQueue.entries, if_pos pc]
    exact sound.take (sound.found pc ready) rfl nofun
  | test pc =>
    rw [quiet (by rw [pc]; nofun)]
    refine sound.shrink (List.Sublist.refl _) nofun fun found _ empty => ?_
    rw [empty] at found
    cases found
  | suspend pc =>
    rw [quiet (by rw [pc]; nofun)]
    refine sound.shrink (List.Sublist.refl _) nofun fun _ ready' => ?_
    rw [ready] at ready'
    cases ready'
  | run w pc | complete pc =>
    rw [quiet (by rw [pc]; nofun)]
    exact sound.shrink (List.Sublist.refl _) nofun nofun

variable [DecidableEq κ]

def step (h : WorkHistory ω κ) (e : WorkEvent ω κ) : Option (WorkHistory ω κ) :=
  (h.queue.step e).map fun q => ⟨q, h.log ++ h.queue.entries e⟩

theorem Sound.submit (sound : h.Sound) (c : κ) (w : ω) :
    Sound ⟨h.queue.submit c w,
      h.log ++ if h.queue.workCurrent = .work w then [] else [.submitted w]⟩ := by
  rw [WorkQueue.submit]
  by_cases busy : h.queue.workCurrent = .work w
  · rw [if_pos busy, if_pos busy]
    exact sound.shrink (List.Sublist.refl _) nofun sound.found
  · rw [if_neg busy, if_neg busy]
    refine ⟨?_, fun v mem => ?_, ?_, fun _ _ => append_ne_nil_of_right_ne_nil _ nofun⟩
    · rw [← concat_eq_append]
      exact (sound.nodup.erase w).concat sound.nodup.not_mem_erase
    · rcases mem_append.mp mem with old | isNew
      · exact (sound.live v (mem_of_mem_erase old)).append (by simp)
      · rw [mem_singleton.mp isNew]
        exact live_append_submitted h.log w
    · exact sound.calls.append_of_no_call (by simp)

theorem Sound.step (sound : h.Sound) {e : WorkEvent ω κ} (careful : h.queue.Careful e)
    (moved : h.step e = some h') : h'.Sound := by
  obtain ⟨q, stepped, rfl⟩ := map_eq_some_iff.mp moved
  cases WorkQueue.moves_of_step stepped with
  | worker ready works => exact sound.work ready works
  | dowork | criticalWork => exact sound.submit ..
  | resume =>
    refine sound.shrink (List.Sublist.refl _) nofun fun taking ready => ?_
    by_cases suspended : h.queue.stat = .suspend
    · exact careful suspended
    · refine sound.found taking ?_
      dsimp only [WorkQueue.resume] at ready
      rwa [Stat.resumed_of_ne suspended] at ready
  | cancelWork =>
    rw [WorkQueue.cancelWork, WorkQueue.entries]
    split_ifs
    · exact sound.shrink (List.Sublist.refl _) nofun sound.found
    · exact sound.cancel _ careful rfl rfl rfl
  | cancelWorkSync =>
    rw [WorkQueue.cancelWorkSync, WorkQueue.entries]
    split_ifs
    · exact sound.shrink (List.Sublist.refl _) nofun sound.found
    · exact sound.cancel _ careful rfl rfl rfl
  | cancelAllWork =>
    refine sound.shrink (nil_sublist _) (fun entry isNew => ?_) fun taking ready => ?_
    · obtain ⟨w, -, rfl⟩ := List.mem_map.mp isNew
      exact ⟨w, not_mem_nil, rfl⟩
    · exact absurd ready (careful taking)

/-- If so, the worker calls only works that are submitted, and neither cancelled nor called. -/
theorem callsLive_of_careful {events : List (WorkEvent ω κ)}
    (careful : Run.Along (lift step) (fun o e => ∀ h ∈ o, h.queue.Careful e) (some start)
      events) : ∀ h ∈ run (lift step) (some start) events, CallsLive h.log :=
  fun h reached => (careful.lift_invariant (I := Sound)
    (fun _ _ _ careful sound moved => sound.step careful moved) sound_start h reached).calls

/-- The second work is cancelled before the worker tests the list. -/
def cancelledRun : List (WorkEvent ℕ ℕ) :=
  [.worker, .worker, .dowork 0 7, .dowork 1 8, .resume 0, .resume 1, .worker, .cancelWork 2 8,
    .worker, .worker, .worker]

theorem callsLive_of_careful_cancelled :
    ∃ h, run (lift step) (some start) cancelledRun = some h ∧
      h.log = [.submitted 7, .submitted 8, .called (.work 7), .cancelled 8] ∧ CallsLive h.log := by
  have evaluated : (run (lift step) (some start) cancelledRun).map WorkHistory.log =
      some [.submitted 7, .submitted 8, .called (.work 7), .cancelled 8] := by decide +kernel
  obtain ⟨h, reached, log⟩ := map_eq_some_iff.mp evaluated
  exact ⟨h, reached, log, callsLive_of_careful (by decide +kernel) h reached⟩

/-- A work is cancelled before the worker is resumed, which calls the head. -/
theorem head_called :
    ∃ h, run (lift step) (some (start : WorkHistory ℕ ℕ))
        [.worker, .worker, .dowork 0 7, .cancelWork 1 7, .resume 0, .worker] = some h ∧
      ¬CallsLive h.log := by
  have evaluated : (run (lift step) (some (start : WorkHistory ℕ ℕ))
      [.worker, .worker, .dowork 0 7, .cancelWork 1 7, .resume 0, .worker]).map WorkHistory.log =
      some [.submitted 7, .cancelled 7, .called .head] := by decide +kernel
  obtain ⟨h, reached, log⟩ := map_eq_some_iff.mp evaluated
  refine ⟨h, reached, fun calls => ?_⟩
  obtain ⟨w, ⟨⟩, -⟩ := calls [.submitted 7, .cancelled 7] .head [] log

end WorkHistory

end Tm4cPilot.Rtt
