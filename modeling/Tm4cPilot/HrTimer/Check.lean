import Tm4cPilot.HrTimer.Queue

/-!
# `hrtimer_check`

The loop calls the timers that are due, while their timeout functions start and stop timers.  What
these start with a clock that stands still is due later, unless the sum exceeds 64 bits.
-/

namespace Tm4cPilot.HrTimer

open List Option Run Nat

variable {κ σ : Type*} {tick : UInt64}

namespace Queue

/-- All timers were initialised with `RT_TIMER_FLAG_ONE_SHOT`. -/
def OneShot (q : Queue κ) : Prop := ∀ k, (q.timer k).periodic = false

/-- The timers that are due. -/
def due (q : Queue κ) (tick : UInt64) : List κ :=
  q.list.filter fun k => (q.timer k).timeoutTick ≤ tick

theorem length_due_le {q q' : Queue κ} (hlist : q'.list.Sublist q.list)
    (htimeout : ∀ k ∈ q'.list, (q'.timer k).timeoutTick = (q.timer k).timeoutTick) :
    (q'.due tick).length ≤ (q.due tick).length := by
  have hdue : q'.due tick = q'.list.filter fun k => (q.timer k).timeoutTick ≤ tick :=
    filter_congr fun k hk => by rw [htimeout k hk]
  rw [hdue]
  exact (hlist.filter _).length_le

variable [DecidableEq κ] {q : Queue κ} {k : κ}

theorem OneShot.modify (h : q.OneShot) {f : Timer → Timer}
    (hf : ∀ t, t.periodic = false → (f t).periodic = false) : (q.modify k f).OneShot := by
  intro u
  by_cases heq : u = k
  · subst heq
    rw [timer_modify_self]
    exact hf _ (h u)
  · rw [timer_modify_of_ne heq]
    exact h u

theorem OneShot.unlink (h : q.OneShot) : (q.unlink k).OneShot :=
  OneShot.modify (q := q.remove k) h fun _ ht => ht

theorem OneShot.hrtimerInit (h : q.OneShot) (time : UInt64) :
    (q.hrtimerInit k time false).OneShot := h.modify fun _ _ => rfl

theorem OneShot.hrtimerStart (h : q.OneShot) (now : UInt64) : (q.hrtimerStart k now).OneShot := by
  intro u
  by_cases heq : u = k
  · subst heq
    rw [timer_hrtimerStart_self]
    exact h u
  · rw [timer_hrtimerStart_of_ne heq]
    exact h u

theorem OneShot.hrtimerStop (h : q.OneShot) : (q.hrtimerStop k).1.OneShot := by
  rw [Queue.hrtimerStop]
  split
  · dsimp only
    exact h.modify fun _ ht => ht
  · dsimp only
    exact h.unlink.modify fun _ ht => ht

end Queue

namespace Op

/-- `hrtimer_init` only for one-shot timers that are not linked. -/
def Proper (q : Queue κ) : Op κ → Prop
  | .init k _ periodic => k ∉ q.list ∧ periodic = false
  | .start _ => True
  | .stop _ => True

/-- The delay is not zero, and the timeout has 64 bits. -/
def Later (clock : ℕ → UInt64) (s : Queue κ × ℕ) : Op κ → Prop
  | .init _ _ _ => True
  | .start k =>
    0 < (s.1.timer k).initTick.toNat ∧
      (clock s.2).toNat + (s.1.timer k).initTick.toNat < 2 ^ 64
  | .stop _ => True

end Op

namespace Check

variable [DecidableEq κ] {clock : ℕ → UInt64} {callback : Callback κ σ} {s s' : Check κ σ}

/-- The timeout function of a due timer makes proper calls. -/
def Obeys (clock : ℕ → UInt64) (callback : Callback κ σ) (s : Check κ σ) : Prop :=
  ∀ k ∈ s.queue.list.head?, (s.queue.timer k).timeoutTick ≤ s.currentTick →
    Run.Along (perform clock) (fun t op => op.Proper t.1) (s.entry k) (callback k s.env).2

/-- The timeout function of a due timer starts timers for later. -/
def StartsLater (clock : ℕ → UInt64) (callback : Callback κ σ) (s : Check κ σ) : Prop :=
  ∀ k ∈ s.queue.list.head?, (s.queue.timer k).timeoutTick ≤ s.currentTick →
    Run.Along (perform clock) (fun t op => op.Later clock t) (s.entry k) (callback k s.env).2

/-- What each round keeps. -/
structure Sound (clock : ℕ → UInt64) (s : Check κ σ) : Prop where
  queue : s.queue.Sound
  oneShot : s.queue.OneShot
  reads : 0 < s.reads
  currentTick : s.currentTick = clock (s.reads - 1)

theorem perform_sound {t : Queue κ × ℕ} {op : Op κ} (hop : op.Proper t.1)
    (h : t.1.Sound ∧ t.1.OneShot) :
    (perform clock t op).1.Sound ∧ (perform clock t op).1.OneShot := by
  obtain ⟨hsound, honce⟩ := h
  cases op with
  | init k time periodic =>
    obtain ⟨hout, rfl⟩ := hop
    exact ⟨hsound.hrtimerInit hout time false, honce.hrtimerInit time⟩
  | start k => exact ⟨hsound.hrtimerStart _, honce.hrtimerStart _⟩
  | stop k => exact ⟨hsound.hrtimerStop, honce.hrtimerStop⟩

theorem round_eq_inr (hs : round clock callback s = .inr s') :
    ∃ k rest, s.queue.list = k :: rest ∧ (s.queue.timer k).timeoutTick ≤ s.currentTick ∧
      s' = s.fire clock callback k := by
  rw [round] at hs
  split at hs
  · contradiction
  · next k rest hlist =>
    split at hs
    · next hdue => exact ⟨k, rest, hlist, hdue, (Sum.inr.inj hs).symm⟩
    · contradiction

theorem round_eq_inl {r : Check κ σ} (hs : round clock callback s = .inl r) :
    r = s ∧ ∀ k ∈ s.queue.list.head?, s.currentTick < (s.queue.timer k).timeoutTick := by
  rw [round] at hs
  split at hs
  · next hlist => exact ⟨(Sum.inl.inj hs).symm, by rw [hlist]; nofun⟩
  · next k rest hlist =>
    split at hs
    · contradiction
    · next hdue =>
      refine ⟨(Sum.inl.inj hs).symm, ?_⟩
      rw [hlist]
      rintro _ ⟨⟩
      exact UInt64.not_le.mp hdue

theorem le_reads_run (t : Queue κ × ℕ) (ops : List (Op κ)) :
    t.2 ≤ (run (perform clock) t ops).2 := by
  refine run_invariant (I := fun t' : Queue κ × ℕ => t.2 ≤ t'.2) (fun t' op ht => ?_) le_rfl ops
  cases op with
  | init k time periodic => exact ht
  | start k => exact ht.trans (le_succ _)
  | stop k => exact ht

theorem fire_of_oneShot {k : κ} (h : (s.callout clock callback k).1.OneShot) :
    s.fire clock callback k =
      ⟨(s.callout clock callback k).1, (callback k s.env).1, (s.callout clock callback k).2 + 1,
        clock (s.callout clock callback k).2, s.called ++ [k]⟩ :=
  fire_eq fun hagain => Bool.false_ne_true ((h k).symm.trans hagain.1)

theorem Sound.callout (h : Sound clock s) {k : κ} (hfirst : k ∈ s.queue.list.head?)
    (hdue : (s.queue.timer k).timeoutTick ≤ s.currentTick) (hobeys : Obeys clock callback s) :
    (s.callout clock callback k).1.Sound ∧ (s.callout clock callback k).1.OneShot :=
  Run.Along.invariant (I := fun t : Queue κ × ℕ => t.1.Sound ∧ t.1.OneShot)
    (fun _ _ => perform_sound) (hobeys k hfirst hdue)
    ⟨h.queue.unlink, h.oneShot.unlink⟩

theorem reads_lt_of_round (h : Sound clock s) (hobeys : Obeys clock callback s)
    (hs : round clock callback s = .inr s') : s.reads < s'.reads := by
  obtain ⟨k, rest, hlist, hdue, rfl⟩ := round_eq_inr hs
  obtain ⟨-, honce⟩ := h.callout (by rw [hlist]; rfl) hdue hobeys
  rw [fire_of_oneShot honce]
  exact lt_succ_of_le (le_reads_run (s.entry k) _)

theorem Sound.round (h : Sound clock s) (hobeys : Obeys clock callback s)
    (hs : round clock callback s = .inr s') : Sound clock s' := by
  obtain ⟨k, rest, hlist, hdue, rfl⟩ := round_eq_inr hs
  obtain ⟨hsound, honce⟩ := h.callout (by rw [hlist]; rfl) hdue hobeys
  rw [fire_of_oneShot honce]
  exact ⟨hsound, honce, succ_pos _, rfl⟩

omit [DecidableEq κ] in
theorem sound_enter {q : Queue κ} (hq : q.Sound) (honce : q.OneShot) (env : σ) :
    Sound clock (enter clock q env) := ⟨hq, honce, one_pos, rfl⟩

/-! ## The loop ends -/

theorem length_due_hrtimerStart {q : Queue κ} {k : κ}
    (hlater : tick < tick + (q.timer k).initTick) :
    ((q.hrtimerStart k tick).due tick).length ≤ (q.due tick).length := by
  have hperm : (q.hrtimerStart k tick).list.Perm (k :: q.list.erase k) :=
    perm_orderedInsert _ k _
  rw [Queue.due, (hperm.filter _).length_eq, filter_cons_of_neg]
  · refine List.Sublist.length_le (.trans (monotone_filter_right _ fun u hu => ?_)
      (erase_sublist.filter _))
    rw [decide_eq_true_iff] at hu ⊢
    by_cases heq : u = k
    · subst heq
      rw [Queue.timer_hrtimerStart_self] at hu
      exact absurd hu (UInt64.not_le.mpr hlater)
    · rwa [Queue.timer_hrtimerStart_of_ne heq] at hu
  · rw [decide_eq_true_iff, Queue.timer_hrtimerStart_self]
    exact UInt64.not_le.mpr hlater

theorem perform_due {t : Queue κ × ℕ} {op : Op κ} (hstill : clock t.2 = tick)
    (hproper : op.Proper t.1) (hlater : op.Later clock t) :
    ((perform clock t op).1.due tick).length ≤ (t.1.due tick).length := by
  cases op with
  | init k time periodic =>
    refine Queue.length_due_le (List.Sublist.refl _) fun u hu => ?_
    have hne : u ≠ k := fun heq => hproper.1 (heq ▸ hu)
    rw [perform, Queue.hrtimerInit, Queue.timer_modify_of_ne hne]
  | start k =>
    obtain ⟨hpos, hfits⟩ := hlater
    rw [perform, hstill]
    apply length_due_hrtimerStart
    rw [hstill] at hfits
    rw [UInt64.lt_iff_toNat_lt, UInt64.toNat_add, mod_eq_of_lt hfits]
    omega
  | stop k =>
    refine Queue.length_due_le ?_ fun u _ =>
      Queue.field_hrtimerStop Timer.timeoutTick (fun _ => rfl) (fun _ => rfl) u
    rw [perform, Queue.hrtimerStop]
    split
    · exact List.Sublist.refl _
    · exact erase_sublist

theorem length_due_round (h : Sound clock s) (hobeys : Obeys clock callback s)
    (hlater : StartsLater clock callback s) (hs : round clock callback s = .inr s')
    (hstill : ∀ n ≥ s.reads, clock n = s.currentTick) :
    (s'.queue.due s.currentTick).length < (s.queue.due s.currentTick).length := by
  obtain ⟨k, rest, hlist, hdue, rfl⟩ := round_eq_inr hs
  have hfirst : k ∈ s.queue.list.head? := by rw [hlist]; rfl
  obtain ⟨-, honce⟩ := h.callout hfirst hdue hobeys
  have hentry : ((s.entry k).1.due s.currentTick).length < (s.queue.due s.currentTick).length := by
    have hrest : (s.entry k).1.list = rest := by
      rw [entry, Queue.list_unlink, hlist, erase_cons_head]
    have hle : ((s.entry k).1.due s.currentTick).length ≤
        (Queue.due { s.queue with list := rest } s.currentTick).length :=
      Queue.length_due_le (by rw [hrest]) fun u _ =>
        Queue.field_unlink Timer.timeoutTick (fun _ => rfl) u
    refine hle.trans_lt ?_
    rw [Queue.due, Queue.due, hlist, filter_cons_of_pos (by rwa [decide_eq_true_iff])]
    exact lt_succ_self _
  have hcallout : ((s.callout clock callback k).1.due s.currentTick).length ≤
      ((s.entry k).1.due s.currentTick).length := by
    refine (Run.Along.invariant (I := fun t : Queue κ × ℕ => s.reads ≤ t.2 ∧
      (t.1.due s.currentTick).length ≤ ((s.entry k).1.due s.currentTick).length)
      (fun t op hop ht => ?_) ((hobeys k hfirst hdue).and (hlater k hfirst hdue))
      ⟨le_rfl, le_rfl⟩).2
    exact ⟨ht.1.trans (le_reads_run t [op]), (perform_due (hstill t.2 ht.1) hop.1 hop.2).trans ht.2⟩
  rw [fire_of_oneShot honce]
  exact hcallout.trans_lt hentry

/-- The clock stands still in the end. -/
def Stops (clock : ℕ → UInt64) : Prop := ∃ n, ∀ m ≥ n, clock m = clock n

theorem exists_returns_of_stops {I : Check κ σ → Prop} (urgency : UInt64 → Check κ σ → ℕ)
    (hstops : Stops clock) (hclock : ∀ s, I s → 0 < s.reads ∧ s.currentTick = clock (s.reads - 1))
    (hround : ∀ s s', I s → Check.round clock callback s = .inr s' →
    I s' ∧ s.reads < s'.reads ∧ ((∀ n ≥ s.reads, clock n = s.currentTick) →
    urgency s.currentTick s' < urgency s.currentTick s)) (h : I s) :
    ∃ r, Loop.Returns (Check.round clock callback) s r := by
  obtain ⟨n, hn⟩ := hstops
  -- first the readings up to the point where the clock stops, then what is left to do
  let measure (s : Check κ σ) : ℕ × ℕ := (n + 1 - s.reads, urgency (clock n) s)
  refine Loop.exists_returns
    (InvImage.wf measure (WellFounded.prod_lex lt_wfRel.wf lt_wfRel.wf)) ?_ h
  intro s s' hs hnext
  obtain ⟨hs', hmore, hless⟩ := hround s s' hs hnext
  refine ⟨hs', ?_⟩
  by_cases hreads : s.reads ≤ n
  · refine Prod.Lex.left _ _ ?_
    change n + 1 - s'.reads < n + 1 - s.reads
    omega
  · obtain ⟨hpos, htick⟩ := hclock s hs
    rw [hn _ (by omega)] at htick
    have hless := hless fun m hm => (hn m (by omega)).trans htick.symm
    rw [htick] at hless
    have hfirst : n + 1 - s'.reads = n + 1 - s.reads := by omega
    change Prod.Lex _ _ (n + 1 - s'.reads, _) (n + 1 - s.reads, _)
    rw [hfirst]
    exact Prod.Lex.right _ hless

theorem exists_returns (hstops : Stops clock) (h : Sound clock s)
    (hobeys : ∀ t, Loop.Reaches (Check.round clock callback) s t →
      Obeys clock callback t ∧ StartsLater clock callback t) :
    ∃ r, Loop.Returns (Check.round clock callback) s r := by
  refine exists_returns_of_stops (I := fun s => Sound clock s ∧
    ∀ t, Loop.Reaches (Check.round clock callback) s t →
      Obeys clock callback t ∧ StartsLater clock callback t)
    (fun tick s => (s.queue.due tick).length) hstops (fun s hs => ⟨hs.1.reads, hs.1.currentTick⟩)
    ?_ ⟨h, hobeys⟩
  rintro s s' ⟨hs, hall⟩ hround
  obtain ⟨hhere, hlater⟩ := hall s (.refl s)
  exact ⟨⟨hs.round hhere hround, fun t ht => hall t (ht.next hround)⟩,
    reads_lt_of_round hs hhere hround, length_due_round hs hhere hlater hround⟩

end Check

/-! ## Runs -/

/-- The calls, with the clock, and for `hrtimer_check` the timeout functions and a bound for its
rounds. -/
inductive Event (κ σ : Type*) where
  | init (k : κ) (time : UInt64) (periodic : Bool)
  | start (k : κ) (now : UInt64)
  | stop (k : κ)
  | check (clock : ℕ → UInt64) (env : σ) (rounds : ℕ)

namespace Queue

variable [DecidableEq κ]

def step (callback : Callback κ σ) (q : Queue κ) : Event κ σ → Option (Queue κ)
  | .init k time periodic => some (q.hrtimerInit k time periodic)
  | .start k now => some (q.hrtimerStart k now)
  | .stop k => some (q.hrtimerStop k).1
  | .check clock env rounds => (hrtimerCheck clock callback rounds q env).map Check.queue

/-- The queue after a run. -/
def after (callback : Callback κ σ) (q : Queue κ) (events : List (Event κ σ)) : Option (Queue κ) :=
  run (lift (step callback)) (some q) events

/-- The timeout functions of this check do what they may. -/
def CheckAllowed (callback : Callback κ σ) (q : Queue κ) (clock : ℕ → UInt64) (env : σ) : Prop :=
  ∀ s, Loop.Reaches (Check.round clock callback) (Check.enter clock q env) s →
    s.Obeys clock callback

/-- How the functions may be called. -/
def Allowed (callback : Callback κ σ) (q : Queue κ) : Event κ σ → Prop
  | .init k _ periodic => k ∉ q.list ∧ periodic = false
  | .start _ _ => True
  | .stop _ => True
  | .check clock env _ => q.CheckAllowed callback clock env

/-- No timer is linked. -/
def idle (timer : κ → Timer) : Queue κ := ⟨timer, [], 0⟩

variable {callback : Callback κ σ} {q q' : Queue κ} {clock : ℕ → UInt64} {env : σ}

theorem sound_of_reaches (h : q.Sound ∧ q.OneShot) (hallowed : q.CheckAllowed callback clock env)
    {s : Check κ σ} (hs : Loop.Reaches (Check.round clock callback) (Check.enter clock q env) s) :
    s.Sound clock :=
  hs.invariant (fun _ _ hobeys hsound hround => hsound.round hobeys hround) hallowed
    (Check.sound_enter h.1 h.2 env)

theorem reaches_of_hrtimerCheck {rounds : ℕ} {r : Check κ σ}
    (hr : hrtimerCheck clock callback rounds q env = some r) :
    Loop.Reaches (Check.round clock callback) (Check.enter clock q env) r ∧
      ∀ k ∈ r.queue.list.head?, r.currentTick < (r.queue.timer k).timeoutTick := by
  obtain ⟨t, ht, hleave⟩ := (Loop.returns_of_exec hr).exists_reaches
  obtain ⟨rfl, hfirst⟩ := Check.round_eq_inl hleave
  exact ⟨ht, hfirst⟩

theorem Sound.step (h : q.Sound ∧ q.OneShot) {e : Event κ σ} (hallowed : q.Allowed callback e)
    (hstep : q.step callback e = some q') : q'.Sound ∧ q'.OneShot := by
  cases e with
  | init k time periodic =>
    obtain ⟨hout, rfl⟩ := hallowed
    obtain rfl := some.inj hstep
    exact ⟨h.1.hrtimerInit hout time false, h.2.hrtimerInit time⟩
  | start k now =>
    obtain rfl := some.inj hstep
    exact ⟨h.1.hrtimerStart now, h.2.hrtimerStart now⟩
  | stop k =>
    obtain rfl := some.inj hstep
    exact ⟨h.1.hrtimerStop, h.2.hrtimerStop⟩
  | check clock env rounds =>
    obtain ⟨r, hr, rfl⟩ := map_eq_some_iff.mp hstep
    have hsound := sound_of_reaches h hallowed (reaches_of_hrtimerCheck hr).1
    exact ⟨hsound.queue, hsound.oneShot⟩

end Queue

/-- A timer after `hrtimer_init`. -/
def Timer.unused : Timer := ⟨0, 0, false, false, 0, false⟩

end Tm4cPilot.HrTimer
