import Tm4cPilot.HrTimer.Queue

/-!
# Periodic timers

`hrtimer_check` clears `RT_TIMER_FLAG_ACTIVATED`, calls the timeout function, and starts a periodic
timer again only if the flag is set.  If the function leaves the timers alone it is not.
-/

namespace Tm4cPilot.HrTimer

open List Function Queue Nat

variable {κ : Type*} [DecidableEq κ]

/-- Functions that leave the timers alone. -/
def quiet : Callback κ Unit := fun _ _ => ((), [])

/-- The timers, those that run, and when a check called each last. -/
structure Watch (κ : Type*) where
  queue : Queue κ
  running : κ → Bool
  fired : κ → Option UInt64

inductive Call (κ : Type*) where
  | start (k : κ) (now : UInt64)
  | stop (k : κ)
  /-- `hrtimer_check`, with the values it reads from the clock. -/
  | check (clock : ℕ → UInt64)

namespace Watch

/-- No timer is started. -/
def idle (time : κ → UInt64) (periodic : κ → Bool) : Watch κ where
  queue := ⟨fun k => ⟨time k, 0, false, periodic k, 0, false⟩, [], 0⟩
  running _ := false
  fired _ := none

def step (w : Watch κ) : Call κ → Watch κ
  | .start k now =>
    { queue := w.queue.hrtimerStart k now
      running := update w.running k true
      fired := update w.fired k none }
  | .stop k =>
    { w with queue := (w.queue.hrtimerStop k).1, running := update w.running k false }
  | .check clock =>
    match hrtimerCheck clock quiet (w.queue.list.length + 1) w.queue () with
    | none => w
    | some r =>
      { w with
        queue := r.queue
        fired := fun k => if k ∈ r.called then some r.currentTick else w.fired k }

/-- The running periodic timers are linked and in time. -/
def PeriodicLinked (w : Watch κ) : Prop :=
  ∀ k, (w.queue.timer k).periodic = true → w.running k = true →
    k ∈ w.queue.list ∧ ∀ tick ∈ w.fired k,
      (w.queue.timer k).timeoutTick.toNat ≤ tick.toNat + (w.queue.timer k).initTick.toNat

/-- No periodic timer is due when the check comes to it. -/
def NoPeriodicDue (q : Queue κ) (clock : ℕ → UInt64) : Prop :=
  ∀ i (hi : i < q.list.length), (q.timer q.list[i]).periodic = true →
    ∃ j, ∃ hj : j ≤ i, clock j < (q.timer q.list[j]).timeoutTick

end Watch

namespace Check

variable {clock : ℕ → UInt64}

theorem fire_quiet (s : Check κ Unit) (k : κ) :
    s.fire clock quiet k =
      ⟨s.queue.unlink k, (), s.reads + 1, clock s.reads, s.called ++ [k]⟩ := by
  have hoff : ((s.queue.unlink k).timer k).activated = false := by
    rw [unlink, timer_modify_self]
  exact fire_eq fun hagain => Bool.false_ne_true (hoff.symm.trans hagain.2)

/-- The first `n` timers are due when reached, the next is not. -/
structure Serves (clock : ℕ → UInt64) (timeout : κ → UInt64) (i : ℕ) (l : List κ) (n : ℕ) :
    Prop where
  le : n ≤ l.length
  due : ∀ j (hj : j < l.length), j < n → timeout l[j] ≤ clock (i + j)
  later : ∀ hn : n < l.length, clock (i + n) < timeout l[n]

omit [DecidableEq κ] in
theorem Serves.cons {timeout : κ → UInt64} {i n : ℕ} {k : κ} {rest : List κ}
    (h : Serves clock timeout (i + 1) rest n) (hk : timeout k ≤ clock i) :
    Serves clock timeout i (k :: rest) (n + 1) := by
  refine ⟨succ_le_succ h.le, fun j hj hn => ?_, fun hn => ?_⟩
  · cases j with
    | zero => exact hk
    | succ j =>
      have hdue := h.due j (lt_of_succ_lt_succ hj) (lt_of_succ_lt_succ hn)
      rwa [add_right_comm] at hdue
  · have hlater := h.later (lt_of_succ_lt_succ hn)
    rwa [add_right_comm] at hlater

theorem exec_quiet (clock : ℕ → UInt64) {i : ℕ} {s : Check κ Unit} (hreads : s.reads = i + 1)
    (htick : s.currentTick = clock i) (hsound : s.queue.Sound) {l : List κ}
    (hlist : s.queue.list = l) :
    ∃ n r, Loop.exec (round clock quiet) (l.length + 1) s = some r ∧
      Serves clock (fun k => (s.queue.timer k).timeoutTick) i l n ∧
      r.called = s.called ++ l.take n ∧ r.queue.list = l.drop n ∧ r.queue.Sound ∧
      ∀ u, (r.queue.timer u).periodic = (s.queue.timer u).periodic := by
  induction l generalizing i s with
  | nil =>
    have hleave : round clock quiet s = .inl s := by rw [round, hlist]
    exact ⟨0, s, Loop.exec_succ_of_inl hleave _, ⟨le_rfl, by simp, by simp⟩, by simp, hlist, hsound,
      fun _ => rfl⟩
  | cons k rest ih =>
    by_cases hdue : (s.queue.timer k).timeoutTick ≤ s.currentTick
    · let s' : Check κ Unit := ⟨s.queue.unlink k, (), s.reads + 1, clock s.reads, s.called ++ [k]⟩
      have hnext : round clock quiet s = .inr s' := by
        rw [round, hlist]
        exact (if_pos hdue).trans (congrArg Sum.inr (fire_quiet s k))
      have hrest : s'.queue.list = rest := by
        rw [list_unlink, hlist, erase_cons_head]
      obtain ⟨n, r, hexec, hserves, hcalled, hdrop, hsound', hperiodic⟩ :=
        ih (i := i + 1) (s := s') (by rw [← hreads]) (by rw [← hreads]) hsound.unlink hrest
      refine ⟨n + 1, r, ?_, Serves.cons ?_ (htick ▸ hdue), ?_, hdrop, hsound', fun u => ?_⟩
      · rw [length_cons, Loop.exec_succ_of_inr hnext, hexec]
      · simpa only [s', field_unlink Timer.timeoutTick (fun _ => rfl)] using hserves
      · rw [hcalled, append_assoc]
        rfl
      · rw [hperiodic u, field_unlink Timer.periodic (fun _ => rfl)]
    · have hleave : round clock quiet s = .inl s := by
        rw [round, hlist]
        exact if_neg hdue
      refine ⟨0, s, Loop.exec_succ_of_inl hleave _, ⟨zero_le _, by simp, fun _ => ?_⟩, by simp,
        hlist, hsound, fun _ => rfl⟩
      rw [add_zero, ← htick]
      exact UInt64.not_le.mp hdue

end Check

/-! ## Runs -/

namespace Watch

variable {w : Watch κ}

/-- A check leaves them linked. -/
def KeptAfter (w : Watch κ) : Call κ → Prop
  | .check clock => (w.step (.check clock)).PeriodicLinked
  | _ => True

/-- No check finds one due. -/
def Harmless (w : Watch κ) : Call κ → Prop
  | .check clock => NoPeriodicDue w.queue clock
  | _ => True

/-- What holds as long as no periodic timer has been due. -/
structure Sound (w : Watch κ) : Prop where
  queue : w.queue.Sound
  running : ∀ k ∈ w.queue.list, w.running k = true
  linked : ∀ k, (w.queue.timer k).periodic = true → w.running k = true →
    k ∈ w.queue.list ∧ w.fired k = none

omit [DecidableEq κ] in
theorem sound_idle (time : κ → UInt64) (periodic : κ → Bool) : (idle time periodic).Sound where
  queue := ⟨nodup_nil, List.Pairwise.nil, fun k => by simp [idle], nofun, nofun⟩
  running := nofun
  linked _ _ := nofun

theorem Sound.check (h : w.Sound) (clock : ℕ → UInt64) :
    ∃ n, Check.Serves clock (fun k => (w.queue.timer k).timeoutTick) 0 w.queue.list n ∧
      (w.step (.check clock)).queue.Sound ∧
      (w.step (.check clock)).queue.list = w.queue.list.drop n ∧
      (w.step (.check clock)).running = w.running ∧
      (∀ k, ((w.step (.check clock)).queue.timer k).periodic = (w.queue.timer k).periodic) ∧
      ∀ k, k ∉ w.queue.list.take n → (w.step (.check clock)).fired k = w.fired k := by
  obtain ⟨n, r, hexec, hserves, hcalled, hdrop, hsound, hperiodic⟩ :=
    Check.exec_quiet clock (s := Check.enter clock w.queue ()) rfl rfl h.queue rfl
  have hstep : w.step (.check clock) = { w with
      queue := r.queue
      fired := fun k => if k ∈ r.called then some r.currentTick else w.fired k } := by
    rw [step]
    have hcheck : hrtimerCheck clock quiet (w.queue.list.length + 1) w.queue () = some r := hexec
    rw [hcheck]
  rw [hstep]
  refine ⟨n, hserves, hsound, hdrop, rfl, hperiodic, fun k hk => ?_⟩
  have hcalled' : r.called = w.queue.list.take n := hcalled
  exact if_neg (by rwa [hcalled'])

omit [DecidableEq κ] in
theorem noPeriodicDue_iff {q : Queue κ} {clock : ℕ → UInt64} {n : ℕ}
    (h : Check.Serves clock (fun k => (q.timer k).timeoutTick) 0 q.list n) :
    NoPeriodicDue q clock ↔ ∀ k ∈ q.list.take n, (q.timer k).periodic = false := by
  constructor
  · intro hnone k hk
    obtain ⟨i, hi, rfl⟩ := mem_take_iff_getElem.mp hk
    rw [lt_min_iff] at hi
    by_contra hperiodic
    obtain ⟨j, hj, hlater⟩ := hnone i hi.2 (Bool.eq_true_of_not_eq_false hperiodic)
    have hdue := h.due j (by omega) (by omega)
    rw [zero_add] at hdue
    exact UInt64.not_le.mpr hlater hdue
  · intro hcalled i hi hperiodic
    have hn : n ≤ i := by
      by_contra hlt
      have hmem : q.list[i] ∈ q.list.take n :=
        mem_take_iff_getElem.mpr ⟨i, by omega, rfl⟩
      rw [hcalled _ hmem] at hperiodic
      contradiction
    have hlater := h.later (by omega)
    rw [zero_add] at hlater
    exact ⟨n, hn, hlater⟩

omit [DecidableEq κ] in
theorem Sound.linked_check {w' : Watch κ} {n : ℕ} (h : w.Sound)
    (hlist : w'.queue.list = w.queue.list.drop n) (hrunning : w'.running = w.running)
    (hperiodic : ∀ k, (w'.queue.timer k).periodic = (w.queue.timer k).periodic)
    (hfired : ∀ k, k ∉ w.queue.list.take n → w'.fired k = w.fired k)
    (hcalled : ∀ k ∈ w.queue.list.take n, (w.queue.timer k).periodic = false) :
    ∀ k, (w'.queue.timer k).periodic = true → w'.running k = true →
      k ∈ w'.queue.list ∧ w'.fired k = none := by
  intro k hon hrun
  rw [hperiodic] at hon
  rw [hrunning] at hrun
  obtain ⟨hmem, hnone⟩ := h.linked k hon hrun
  have hstays : k ∉ w.queue.list.take n := fun hk => by
    rw [hcalled k hk] at hon
    contradiction
  rw [← take_append_drop n w.queue.list, mem_append] at hmem
  rw [hlist, hfired k hstays]
  exact ⟨hmem.resolve_left hstays, hnone⟩

theorem Sound.keptAfter_iff (h : w.Sound) (e : Call κ) : w.KeptAfter e ↔ w.Harmless e := by
  cases e with
  | start k now => exact Iff.rfl
  | stop k => exact Iff.rfl
  | check clock =>
    obtain ⟨n, hserves, hsound, hlist, hrunning, hperiodic, hfired⟩ := h.check clock
    rw [KeptAfter, Harmless, noPeriodicDue_iff hserves]
    constructor
    · intro hkept k hk
      by_contra hon
      have hon' : ((w.step (.check clock)).queue.timer k).periodic = true :=
        (hperiodic k).trans (Bool.eq_true_of_not_eq_false hon)
      have hrun : (w.step (.check clock)).running k = true := by
        rw [hrunning]
        exact h.running k (mem_of_mem_take hk)
      have hthere := (hkept k hon' hrun).1
      rw [hlist] at hthere
      exact disjoint_take_drop h.queue.nodup le_rfl hk hthere
    · intro hcalled k hon hrun
      exact (h.linked_check hlist hrunning hperiodic hfired hcalled k hon hrun).imp_right
        fun hnone => by rw [hnone]; nofun

theorem Sound.start (h : w.Sound) (k : κ) (now : UInt64) : (w.step (.start k now)).Sound := by
  refine ⟨h.queue.hrtimerStart now, fun u hu => ?_, fun u hon hrun => ?_⟩
  · rw [step, mem_hrtimerStart] at hu
    by_cases heq : u = k
    · subst heq
      exact update_self ..
    · exact (update_of_ne heq ..).trans (h.running u (hu.resolve_left heq))
  · rw [step, mem_hrtimerStart]
    by_cases heq : u = k
    · subst heq
      exact ⟨.inl rfl, update_self ..⟩
    · simp only [step, timer_hrtimerStart_of_ne heq, update_of_ne heq] at hon hrun ⊢
      exact (h.linked u hon hrun).imp_left .inr

theorem Sound.stop (h : w.Sound) (k : κ) : (w.step (.stop k)).Sound := by
  refine ⟨h.queue.hrtimerStop, fun u hu => ?_, fun u hon hrun => ?_⟩
  · rw [step, h.queue.mem_hrtimerStop] at hu
    exact (update_of_ne hu.1 ..).trans (h.running u hu.2)
  · by_cases heq : u = k
    · subst heq
      simp [step] at hrun
    · simp only [step, update_of_ne heq, h.queue.mem_hrtimerStop,
        field_hrtimerStop Timer.periodic (fun _ => rfl) (fun _ => rfl)] at hon hrun ⊢
      exact (h.linked u hon hrun).imp_left fun hmem => ⟨heq, hmem⟩

theorem Sound.step (h : w.Sound) (e : Call κ) (hharmless : w.Harmless e) : (w.step e).Sound := by
  cases e with
  | start k now => exact h.start k now
  | stop k => exact h.stop k
  | check clock =>
    obtain ⟨n, hserves, hsound, hlist, hrunning, hperiodic, hfired⟩ := h.check clock
    refine ⟨hsound, fun k hk => ?_, h.linked_check hlist hrunning hperiodic hfired
      ((noPeriodicDue_iff hserves).mp hharmless)⟩
    rw [hlist] at hk
    rw [hrunning]
    exact h.running k (mem_of_mem_drop hk)

end Watch

open Watch in
/-- **Periodic timers keep running** exactly as long as no check finds one of them due: until then
they stay linked, with timeouts that are not too late. -/
theorem periodic_linked_iff (time : κ → UInt64) (periodic : κ → Bool) (calls : List (Call κ)) :
    Run.Along step KeptAfter (idle time periodic) calls ↔
      Run.Along step Harmless (idle time periodic) calls :=
  Run.along_congr (fun _ e h => h.keptAfter_iff e) (fun _ e h hharmless => h.step e hharmless)
    (sound_idle time periodic)

open Watch in
/-- A periodic timer of one millisecond is gone after its first period. -/
theorem periodic_timer_gone :
    let w := Run.run step (idle (fun _ : Unit => 1000) fun _ => true)
      [.start () 0, .check fun _ => 1000]
    (w.queue.timer ()).periodic = true ∧ w.running () = true ∧ () ∉ w.queue.list := by
  decide

end Tm4cPilot.HrTimer
