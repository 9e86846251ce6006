import Tm4cPilot.Lib.Run
import Tm4cPilot.Rtt.Ready

/-!
# The calls of the scheduler

`Effect` lists what a call can do to the threads and lists, and `call_effect` says that the calls do
no more.  Every effect keeps `Sound`.
-/

namespace Tm4cPilot.Rtt

open Option Thread Function

namespace Kernel

variable {k k' : Kernel} {t : Tid}

/-! ## Effects of calls -/

/-- The current thread is ready or suspended. -/
def Running (k : Kernel) : Prop :=
  ∀ t ∈ k.currentThread, (k.thread t).stat = .ready ∨ (k.thread t).stat = .suspend

/-- The call moves the thread in its list. -/
def Call.Moves (k : Kernel) (t : Tid) : Call → Prop
  | .yield => k.currentThread = some t
  | .changePriority u _ => u = t
  | _ => False

/-- What a call can do. -/
inductive Effect (k : Kernel) (c : Call) : Kernel → Prop
  /-- Nothing, to threads that are not moved. -/
  | same (quiet : ∀ u, ¬ c.Moves k u) : Effect k c k
  /-- A yield of a thread that is not ready or is alone in its list. -/
  | alone (t : Tid) (moves : ∀ u, c.Moves k u ↔ u = t)
      (list : (k.thread t).stat ≠ .ready ∨
        (k.list (.ready (k.thread t).currentPriority)).length < 2) : Effect k c k
  | move (t : Tid) (moves : ∀ u, c.Moves k u ↔ u = t) (ready : (k.thread t).stat = .ready) :
      Effect k c ((k.listRemove t).listInsertBefore (.ready (k.thread t).currentPriority) t)
  /-- Another error number, and the timer started or stopped. -/
  | write (t : Tid) (e : Err) (r : Bool) (quiet : ∀ u, ¬ c.Moves k u)
      (timer : r = (k.thread t).timer ∨ (k.thread t).stat = .suspend) :
      Effect k c (k.modify t fun thread => { thread with error := e, timer := r })
  /-- A started thread becomes suspended or closed. -/
  | leave (t : Tid) (s : Stat) (r : Bool) (quiet : ∀ u, ¬ c.Moves k u)
      (started : (k.thread t).stat = .ready ∨ (k.thread t).stat = .suspend)
      (idle : s = .suspend ∨ s = .close) (timer : r = true → s = .suspend) :
      Effect k c ((k.scheduleRemoveThread t).modify t fun thread =>
        { thread with stat := s, timer := r })
  /-- A started thread becomes closed and is kept for the idle thread. -/
  | retire (t : Tid) (quiet : ∀ u, ¬ c.Moves k u)
      (started : (k.thread t).stat = .ready ∨ (k.thread t).stat = .suspend) :
      Effect k c (((k.scheduleRemoveThread t).modify t fun thread =>
        { thread with stat := .close, timer := false }).listInsertAfter .defunct t)
  /-- A thread becomes ready, after it has been written to. -/
  | enter (t : Tid) (thread : Thread) (quiet : ∀ u, ¬ c.Moves k u)
      (unready : (k.thread t).stat ≠ .ready) (attributes : thread.HasAttributes)
      (timer : thread.timer = false)
      (priority : (k.thread t).stat ≠ .init →
        thread.currentPriority = (k.thread t).currentPriority) :
      Effect k c (((k.listRemove t).modify t fun _ => thread).scheduleInsertThread t)
  | priority (t : Tid) (p : UInt8) (isChange : c = .changePriority t p) :
      Effect k c (k.threadChangePriority t p)

/-- The threads stay as they are, or the selected one runs. -/
inductive Switch (k : Kernel) : Kernel → Prop
  | stay (running : k.Running) : Switch k k
  | next (p q : UInt8) (t : Tid) (found : k.toThread = some (p, t)) :
      Switch k { k with currentThread := some t, currentPriority := q }

theorem modify_modify (f g : Thread → Thread) :
    (k.modify t f).modify t g = k.modify t fun thread => g (f thread) := by
  simp [modify]

theorem schedule_eq (h : k.schedule = some k') : ∃ p q t, k.toThread = some (p, t) ∧
    k' = { k with currentThread := some t, currentPriority := q } := by
  obtain ⟨choice, next, h⟩ := bind_eq_some_iff.mp h
  obtain ⟨u, current, h⟩ := bind_eq_some_iff.mp h
  by_cases same : choice.2 = u
  · refine ⟨choice.1, k.currentPriority, choice.2, next, ?_⟩
    rw [if_neg (not_not_intro same)] at h
    rw [same, ← current, ← some.inj h]
  · rw [if_pos same] at h
    exact ⟨choice.1, choice.1, choice.2, next, (some.inj h).symm⟩

theorem schedule_switch (h : k.schedule = some k') : k.Switch k' := by
  obtain ⟨p, q, t, next, rfl⟩ := schedule_eq h
  exact .next p q t next

theorem schedule_of_toThread {p : UInt8} (found : k.toThread = some (p, t))
    (started : k.currentThread ≠ none) :
    ∃ k', k.schedule = some k' ∧ k'.currentThread = some t := by
  obtain ⟨u, current⟩ := ne_none_iff_exists'.mp started
  by_cases same : t = u
  · exact ⟨k, by simp [schedule, found, current, same], by rw [current, same]⟩
  · exact ⟨{ k with currentThread := some t, currentPriority := p },
      by simp [schedule, found, current, same], rfl⟩

theorem systemSchedulerStart_switch (h : k.systemSchedulerStart = some k') : k.Switch k' := by
  obtain ⟨choice, next, h⟩ := bind_eq_some_iff.mp h
  rw [← some.inj h]
  exact Switch.next choice.1 k.currentPriority choice.2 next

theorem threadSuspend_of_ready (ready : (k.thread t).stat = .ready) :
    (k.threadSuspend t).1 = (k.scheduleRemoveThread t).modify t fun thread =>
      { thread with stat := .suspend, timer := false } := by
  have commutes : (k.modify t fun thread => { thread with stat := .suspend }).scheduleRemoveThread t =
      (k.scheduleRemoveThread t).modify t fun thread => { thread with stat := .suspend } := by
    by_cases empty : (k.list (.ready (k.thread t).currentPriority)).erase t = []
    · simp only [scheduleRemoveThread, modify, listRemove, update_self, empty, if_true]
      congr
    · simp only [scheduleRemoveThread, modify, listRemove, update_self, empty, if_false]
  rw [threadSuspend, if_neg (not_not_intro ready)]
  dsimp only
  rw [commutes, modify_modify]

theorem threadSuspend_of_not_ready (unready : (k.thread t).stat ≠ .ready) :
    (k.threadSuspend t).1 = k := by
  rw [threadSuspend, if_pos unready]

theorem threadResume_of_suspend (suspended : (k.thread t).stat = .suspend) :
    (k.threadResume t).1 = ((k.listRemove t).modify t
      fun _ => { k.thread t with timer := false }).scheduleInsertThread t := by
  rw [threadResume, if_neg (not_not_intro suspended)]
  rfl

theorem threadResume_of_not_suspend (other : (k.thread t).stat ≠ .suspend) :
    (k.threadResume t).1 = k := by
  rw [threadResume, if_pos other]

theorem Running.of_update (running : k.Running) (current : k'.currentThread = k.currentThread)
    (elsewhere : ∀ u, u ≠ t → (k'.thread u).stat = (k.thread u).stat)
    (here : (k'.thread t).stat = .ready ∨ (k'.thread t).stat = .suspend) : k'.Running := by
  intro u isCurrent
  rw [current] at isCurrent
  by_cases same : u = t
  · exact same ▸ here
  · rw [elsewhere u same]
    exact running u isCurrent

/-- The linked threads are the ready ones, with the attributes of their priorities, and timers run
for suspended ones. -/
structure Sound (k : Kernel) : Prop where
  queues : k.Queues fun t => (k.thread t).stat = .ready
  attributes : ∀ t, (k.thread t).stat ≠ .init → (k.thread t).HasAttributes
  timer : ∀ t, (k.thread t).timer = true → (k.thread t).stat = .suspend

theorem startup_eq (h : k.threadStartup t = some k') :
    (k.thread t).stat = .init ∧ ∃ pre, pre = ((k.modify t fun thread =>
        { thread.withPriority thread.initPriority with stat := .suspend }).threadResume t).1 ∧
      (pre.schedule = some k' ∨ pre.currentThread = none ∧ pre = k') := by
  unfold threadStartup at h
  split_ifs at h with started
  refine ⟨not_not.mp started, _, rfl, ?_⟩
  dsimp only at h
  split_ifs at h with current
  · exact Or.inl h
  · exact Or.inr ⟨not_not.mp current, some.inj h⟩

theorem startup_effect (h : k.threadStartup t = some k') :
    ∃ pre, k.Effect (.startup t) pre ∧ pre.Switch k' := by
  obtain ⟨initial, pre, isPre, next⟩ := startup_eq h
  have resumed : pre =
      ((k.listRemove t).modify t fun _ => { (k.thread t).withPriority (k.thread t).initPriority with
        stat := .suspend, timer := false }).scheduleInsertThread t := by
    rw [isPre, threadResume_of_suspend (by simp)]
    congr 1
    simp [modify, listRemove]
  refine ⟨_, .enter t { (k.thread t).withPriority (k.thread t).initPriority with
    stat := .suspend, timer := false } (fun _ h => h) (by simp [initial])
    ((k.thread t).hasAttributes_withPriority _ |>.written _ _ _) rfl
    fun other => absurd initial other, ?_⟩
  subst resumed
  obtain next | ⟨none, rfl⟩ := next
  · exact schedule_switch next
  · exact .stay fun u isCurrent => absurd (none.symm.trans isCurrent) (by simp)

section

variable (running : k.Running)
include running

theorem suspend_effect : ∃ pre, k.Effect (.suspend t) pre ∧ pre.Switch (k.threadSuspend t).1 := by
  by_cases ready : (k.thread t).stat = .ready
  · rw [threadSuspend_of_ready ready]
    exact ⟨_, .leave t .suspend false (fun _ h => h) (Or.inl ready) (Or.inl rfl) (by simp),
      .stay (running.of_update (t := t) (by simp) (fun u ne => by simp [ne]) (by simp))⟩
  · rw [threadSuspend_of_not_ready ready]
    exact ⟨k, .same fun _ h => h, .stay running⟩

theorem resume_effect (sound : k.Sound) :
    ∃ pre, k.Effect (.resume t) pre ∧ pre.Switch (k.threadResume t).1 := by
  by_cases suspended : (k.thread t).stat = .suspend
  · rw [threadResume_of_suspend suspended]
    have attributes := sound.attributes t (by simp [suspended])
    exact ⟨_, .enter t _ (fun _ h => h) (by simp [suspended]) (attributes.written _ _ _) rfl
      (fun _ => rfl),
      .stay (running.of_update (t := t) (by simp) (fun u ne => by simp [ne]) (by simp))⟩
  · rw [threadResume_of_not_suspend suspended]
    exact ⟨k, .same fun _ h => h, .stay running⟩

theorem yield_effect (h : k.threadYield = some k') :
    ∃ pre, k.Effect .yield pre ∧ pre.Switch k' := by
  obtain ⟨t, current, h⟩ := bind_eq_some_iff.mp h
  have moves (u : Tid) : Call.yield.Moves k u ↔ u = t := by
    simp [Call.Moves, current, eq_comm]
  dsimp only at h
  split_ifs at h with others
  · exact ⟨_, .move t moves others.1, schedule_switch h⟩
  · rw [← some.inj h]
    refine ⟨k, .alone t moves ?_, .stay running⟩
    rw [not_and_or, not_le] at others
    exact others

theorem sleep_effect (h : k.threadSleep = some k') :
    ∃ pre, k.Effect .sleep pre ∧ pre.Switch k' := by
  obtain ⟨t, current, h⟩ := bind_eq_some_iff.mp h
  dsimp only at h
  by_cases ready : (k.thread t).stat = .ready
  · rw [threadSuspend_of_ready ready, modify_modify] at h
    exact ⟨_, .leave t .suspend true (fun _ h => h) (Or.inl ready) (Or.inl rfl) (fun _ => rfl),
      schedule_switch h⟩
  · rw [threadSuspend_of_not_ready ready] at h
    have suspended := (running t current).resolve_left ready
    exact ⟨_, .write t (k.thread t).error true (fun _ h => h) (Or.inr suspended), schedule_switch h⟩

theorem sleepReturn_effect (h : k.threadSleepReturn = some k') :
    ∃ pre, k.Effect .sleepReturn pre ∧ pre.Switch k' := by
  obtain ⟨t, current, h⟩ := bind_eq_some_iff.mp h
  have cleared : k' = k.modify t fun thread => { thread with
      error := if (k.thread t).error = .timeout then .ok else (k.thread t).error
      timer := (k.thread t).timer } := by
    rw [← some.inj h]
    unfold modify
    congr 2
    dsimp only
    split_ifs <;> rfl
  rw [cleared]
  exact ⟨_, .write t _ _ (fun _ h => h) (Or.inl rfl),
    .stay (running.of_update (t := t) rfl (fun u ne => by simp [ne])
      (by simpa using running t current))⟩

theorem timeout_effect (sound : k.Sound) (h : k.timerExpires t = some k') :
    ∃ pre, k.Effect (.timeout t) pre ∧ pre.Switch k' := by
  unfold timerExpires at h
  split_ifs at h with active
  · have suspended := sound.timer t active
    have attributes := sound.attributes t (by simp [suspended])
    rw [threadTimeout, if_neg (by simp [suspended]), modify_modify] at h
    exact ⟨_, .enter t { k.thread t with timer := false, error := .timeout } (fun _ h => h)
      (by simp [suspended]) (attributes.written _ _ _) rfl (fun _ => rfl), schedule_switch h⟩
  · rw [← some.inj h]
    exact ⟨k, .same fun _ h => h, .stay running⟩

end

theorem thread_threadChangePriority (t : Tid) (p : UInt8) :
    (k.threadChangePriority t p).thread =
      update k.thread t ((k.thread t).withPriority p) := by
  unfold threadChangePriority
  by_cases ready : (k.thread t).stat = .ready
  · simp [ready, withPriority]
  · simp [ready]

theorem currentThread_threadChangePriority (t : Tid) (p : UInt8) :
    (k.threadChangePriority t p).currentThread = k.currentThread := by
  unfold threadChangePriority
  split_ifs <;> simp

theorem changePriority_effect (running : k.Running) (p : UInt8) :
    ∃ pre, k.Effect (.changePriority t p) pre ∧ pre.Switch (k.threadChangePriority t p) := by
  refine ⟨_, .priority t p rfl, .stay fun u current => ?_⟩
  rw [currentThread_threadChangePriority] at current
  rw [thread_threadChangePriority]
  by_cases same : u = t
  · subst same
    simpa [withPriority] using running u current
  · simpa [same] using running u current

theorem exit_effect (running : k.Running) (h : k.threadExit = some k') :
    ∃ pre, k.Effect .exit pre ∧ pre.Switch k' := by
  obtain ⟨t, current, h⟩ := bind_eq_some_iff.mp h
  have started := running t current
  dsimp only at h
  split_ifs at h
  · exact ⟨_, .leave t .close false (fun _ h => h) started (Or.inr rfl) (by simp), schedule_switch h⟩
  · exact ⟨_, .retire t (fun _ h => h) started, schedule_switch h⟩

section

variable (sound : k.Sound)
include sound

theorem call_effect (running : k.Running) {c : Call} (h : k.call c = some k') :
    ∃ pre, k.Effect c pre ∧ pre.Switch k' := by
  cases c with
  | schedulerStart => exact ⟨k, .same fun _ h => h, systemSchedulerStart_switch h⟩
  | startup t => exact startup_effect h
  | suspend t => exact some.inj h ▸ suspend_effect running
  | resume t => exact some.inj h ▸ resume_effect running sound
  | yield => exact yield_effect running h
  | sleep => exact sleep_effect running h
  | sleepReturn => exact sleepReturn_effect running h
  | timeout t => exact timeout_effect running sound h
  | changePriority t p => exact some.inj h ▸ changePriority_effect running p
  | exit => exact exit_effect running h
  | schedule => exact ⟨k, .same fun _ h => h, schedule_switch h⟩

/-! ## Effects keep the invariant -/

theorem Sound.of_update (elsewhere : ∀ u, u ≠ t → k'.thread u = k.thread u)
    (queues : k'.Queues fun u => (k'.thread u).stat = .ready)
    (attributes : (k'.thread t).stat ≠ .init → (k'.thread t).HasAttributes)
    (timer : (k'.thread t).timer = true → (k'.thread t).stat = .suspend) : k'.Sound := by
  refine ⟨queues, fun u => ?_, fun u => ?_⟩
  · by_cases same : u = t
    · exact same ▸ attributes
    · rw [elsewhere u same]
      exact sound.attributes u
  · by_cases same : u = t
    · exact same ▸ timer
    · rw [elsewhere u same]
      exact sound.timer u

theorem Sound.modify {f : Thread → Thread} (keeps : (f (k.thread t)).stat = (k.thread t).stat)
    (priority : (k.thread t).stat = .ready →
      (f (k.thread t)).currentPriority = (k.thread t).currentPriority)
    (attributes : (k.thread t).stat ≠ .init → (f (k.thread t)).HasAttributes)
    (timer : (f (k.thread t)).timer = true → (k.thread t).stat = .suspend) :
    (k.modify t f).Sound := by
  have queues := sound.queues.modify t f (or_iff_not_imp_left.mpr fun h => priority (not_not.mp h))
  refine sound.of_update (t := t) (fun u ne => by simp [ne]) (queues.congr fun u => ?_)
    (by simpa [keeps] using attributes) (by simpa [keeps] using timer)
  by_cases same : u = t <;> simp [same, keeps]

theorem Sound.leave (started : (k.thread t).stat = .ready ∨ (k.thread t).stat = .suspend)
    {s : Stat} {r : Bool} (idle : s = .suspend ∨ s = .close) (timer : r = true → s = .suspend) :
    ((k.scheduleRemoveThread t).modify t fun thread =>
      { thread with stat := s, timer := r }).Sound := by
  have attributes : (k.thread t).HasAttributes := by
    apply sound.attributes
    rcases started with ready | suspended
    · simp [ready]
    · simp [suspended]
  have queues := (sound.queues.remove attributes).modify t
    (fun thread => { thread with stat := s, timer := r }) (Or.inl (by simp))
  refine sound.of_update (t := t) (fun u ne => by simp [ne]) (queues.congr fun u => ?_)
    (fun _ => by simpa using attributes.written s _ r) (by simpa using timer)
  have unready : s ≠ .ready := by rcases idle with rfl | rfl <;> simp
  by_cases same : u = t <;> simp [same, unready]

theorem Sound.enter (unready : (k.thread t).stat ≠ .ready) {thread : Thread}
    (attributes : thread.HasAttributes) (timer : thread.timer = false) :
    (((k.listRemove t).modify t fun _ => thread).scheduleInsertThread t).Sound := by
  have removed := sound.queues.listRemove unready
  have written := removed.modify t (fun _ => thread) (Or.inl unready)
  have queues := written.insert (t := t) (by simpa using attributes) unready
  refine sound.of_update (t := t) (fun u ne => by simp [ne]) (queues.congr fun u => ?_)
    (fun _ => by simpa using attributes.written .ready _ _) (by simp [timer])
  by_cases same : u = t <;> simp [same]

theorem Sound.changePriority (t : Tid) (p : UInt8) : (k.threadChangePriority t p).Sound := by
  have attributes := (k.thread t).hasAttributes_withPriority p
  by_cases ready : (k.thread t).stat = .ready
  · have idle : (k.thread t).timer ≠ true := fun active => by simp [sound.timer t active] at ready
    have removed := sound.queues.remove (sound.attributes t (by simp [ready]))
    have written := removed.modify t (·.withPriority p) (Or.inl (by simp))
    have queues := written.insert (t := t) (by simpa using attributes) (by simp)
    rw [threadChangePriority, if_pos ready]
    refine sound.of_update (t := t) (fun u ne => by simp [ne]) (queues.congr fun u => ?_)
      (fun _ => by simpa using attributes.written .ready _ _)
      (by simpa [withPriority] using idle)
    by_cases same : u = t <;> simp [same]
  · rw [threadChangePriority, if_neg ready]
    exact sound.modify rfl (fun h => absurd h ready) (fun _ => attributes) (sound.timer t)

theorem Sound.of_perm (threads : k'.thread = k.thread) (bitmap : k'.bitmap = k.bitmap)
    (perm : ∀ p, (k'.list (.ready p)).Perm (k.list (.ready p))) : k'.Sound := by
  refine ⟨?_, ?_, ?_⟩
  · rw [threads]
    exact sound.queues.of_perm threads bitmap perm
  · rw [threads]
    exact sound.attributes
  · rw [threads]
    exact sound.timer

theorem Sound.list_move (p : UInt8) :
    ((k.listRemove t).listInsertBefore (.ready (k.thread t).currentPriority) t).list (.ready p) =
      if p = (k.thread t).currentPriority then (k.list (.ready p)).erase t ++ [t]
      else k.list (.ready p) := by
  by_cases here : p = (k.thread t).currentPriority
  · simp [listInsertBefore, listRemove, here]
  · have other := sound.queues.erase_eq (t := t) (p := p) fun h => here h.2
    simpa [listInsertBefore, listRemove, here] using other

theorem Sound.move (ready : (k.thread t).stat = .ready) :
    ((k.listRemove t).listInsertBefore (.ready (k.thread t).currentPriority) t).Sound := by
  refine sound.of_perm rfl rfl fun p => ?_
  rw [sound.list_move]
  split_ifs with here
  · have member : t ∈ k.list (.ready p) := (sound.queues.mem p t).mpr ⟨ready, here⟩
    exact (List.perm_append_singleton t _).trans (List.perm_cons_erase member).symm
  · exact .refl _

end

theorem Effect.sound {c : Call} (effect : k.Effect c k') (sound : k.Sound) : k'.Sound := by
  cases effect with
  | same quiet => exact sound
  | alone t moves list => exact sound
  | move t moves ready => exact sound.move ready
  | write t e r quiet timer =>
    refine sound.modify rfl (fun _ => rfl) (fun started => (sound.attributes t started).written _ e r)
      fun active => ?_
    rcases timer with same | suspended
    · exact sound.timer t (same ▸ active)
    · exact suspended
  | leave t s r quiet started idle timer => exact sound.leave started idle timer
  | retire t quiet started =>
    have left := sound.leave (s := .close) (r := false) started (Or.inr rfl) (by simp)
    exact left.of_perm rfl rfl fun p => .of_eq (by simp [listInsertAfter])
  | enter t thread quiet unready attributes timer priority => exact sound.enter unready attributes timer
  | priority t p isChange => exact sound.changePriority t p

theorem Selected.ready (sound : k.Sound) (h : k.Selected t) : (k.thread t).stat = .ready :=
  ((sound.queues.mem _ t).mp (List.mem_of_mem_head? h.first)).1

theorem Switch.sound (switch : k.Switch k') (sound : k.Sound) : k'.Sound ∧ k'.Running := by
  cases switch with
  | stay running => exact ⟨sound, running⟩
  | next p q t found =>
    refine ⟨sound.of_perm rfl rfl fun _ => .refl _, fun u isCurrent => Or.inl ?_⟩
    obtain rfl : t = u := by simpa using isCurrent
    show (k.thread t).stat = .ready
    exact (sound.queues.toThread_selected found).ready sound

theorem Sound.call (sound : k.Sound) (running : k.Running) {c : Call} (h : k.call c = some k') :
    k'.Sound ∧ k'.Running := by
  obtain ⟨pre, effect, switch⟩ := call_effect sound running h
  exact switch.sound (effect.sound sound)

theorem sound_boot (thread : Tid → UInt8 × Bool) : (boot thread).Sound ∧ (boot thread).Running := by
  refine ⟨⟨⟨TwoLevel.consistent_empty, fun p => ?_, fun p t => ?_, fun p => List.nodup_nil⟩, ?_, ?_⟩,
    ?_⟩
  · exact iff_of_false TwoLevel.not_mem_empty (fun h => h rfl)
  · simp [boot, init]
  · simp [boot, init]
  · simp [boot, init]
  · simp [Running, boot]

end Kernel

end Tm4cPilot.Rtt
