import Tm4cPilot.Lib.Fairness
import Tm4cPilot.Rtt.WorkQueue

/-!
# Every submitted work is called

A work that is submitted between the worker's test of the list and its suspension wakes nobody.
Without such submissions every work that stays in the list is called.
-/

namespace Tm4cPilot.Rtt

open List Function Option

variable {ω κ : Type}

namespace WorkQueue

variable {q q' : WorkQueue ω κ}

/-- A suspended worker with a work is about to be resumed. -/
structure Awake (q : WorkQueue ω κ) : Prop where
  runs : ∀ p, q.worker = .run p → ∃ w, p = .work w
  rests : (∀ p, q.worker ≠ .run p) → q.workCurrent = .null
  empty : q.worker = .suspend → q.workList = []
  stat : q.stat = .ready ∨ q.stat = .suspend ∧ q.worker = .take ∧
    (q.workList ≠ [] → ∃ c, q.client c = .resuming)

theorem awake_create : (create : WorkQueue ω κ).Awake :=
  ⟨nofun, fun _ => rfl, nofun, .inl rfl⟩

theorem Awake.work (awake : q.Awake) (found : q.worker = .take → q.workList ≠ [])
    (ready : q.stat = .ready) (works : q.Works q') : q'.Awake := by
  cases works with
  | test pc =>
    refine ⟨fun p isRun => ?_, fun _ => awake.rests (by simp [pc]), fun waits => ?_, .inl ready⟩
    · split_ifs at isRun
    · split_ifs at waits with none
      exact isEmpty_iff.mp none
  | suspend pc =>
    refine ⟨by simp, fun _ => awake.rests (by simp [pc]), by simp, .inr ⟨?_, rfl, ?_⟩⟩
    · rw [ready]
      rfl
    · exact fun some => absurd (awake.empty pc) some
  | take pc =>
    refine ⟨fun p isRun => ?_, fun other => absurd rfl (other q.next), by simp, .inl ready⟩
    obtain ⟨w, works, list⟩ := exists_cons_of_ne_nil (found pc)
    obtain ⟨⟩ := isRun
    exact ⟨w, by rw [next, list]⟩
  | run w pc => exact ⟨by simp, fun _ => rfl, by simp, .inl ready⟩
  | complete pc => exact ⟨by simp, fun _ => awake.rests (by simp [pc]), by simp, .inl ready⟩

/-- The steps to the next test. -/
def distance (q : WorkQueue ω κ) : ℕ :=
  if q.stat = .suspend then 4
  else match q.worker with
    | .take | .suspend => 0
    | .test => 1
    | .complete => 2
    | .run _ => 3

theorem distance_congr (stat : q'.stat = q.stat) (worker : q'.worker = q.worker) :
    q'.distance = q.distance := by
  simp only [distance, stat, worker]

end WorkQueue

variable [DecidableEq ω]

/-! ## The list of works -/

namespace WorkEntry

/-- The list after an entry. -/
def apply (works : List ω) : WorkEntry ω → List ω
  | submitted v => works.erase v ++ [v]
  | cancelled v => works.erase v
  | called (.work v) => works.erase v
  | called _ => works

/-- The entry is about another work. -/
def Apart (w : ω) (entry : WorkEntry ω) : Prop :=
  entry ≠ submitted w ∧ entry ≠ cancelled w ∧ entry ≠ called (.work w)

theorem idxOf_erase_le {v w : ω} (other : v ≠ w) (works : List ω) :
    (works.erase v).idxOf w ≤ works.idxOf w := by
  induction works with
  | nil => rfl
  | cons u works ih =>
    by_cases here : u = v
    · subst here
      rw [erase_cons_head, idxOf_cons_ne _ other]
      exact Nat.le_succ _
    · rw [erase_cons_tail (by simpa using here)]
      by_cases found : u = w
      · subst found
        rw [idxOf_cons_self]
        exact Nat.zero_le _
      · rw [idxOf_cons_ne _ found, idxOf_cons_ne _ found]
        exact Nat.succ_le_succ ih

variable {w w' : ω} {entry : WorkEntry ω} {works : List ω}

theorem apply_of_apart (apart : entry.Apart w) (mem : w ∈ works) :
    w ∈ apply works entry ∧ (apply works entry).idxOf w ≤ works.idxOf w := by
  have erased (v : ω) (other : v ≠ w) :
      w ∈ works.erase v ∧ (works.erase v).idxOf w ≤ works.idxOf w :=
    ⟨(mem_erase_of_ne other.symm).mpr mem, idxOf_erase_le other works⟩
  match entry with
  | submitted v =>
    obtain ⟨still, le⟩ := erased v fun same => apart.1 (by rw [same])
    exact ⟨mem_append_left _ still, by rwa [apply, idxOf_append_of_mem still]⟩
  | cancelled v => exact erased v fun same => apart.2.1 (by rw [same])
  | called (.work v) => exact erased v fun same => apart.2.2 (by rw [same])
  | called .head | called .null => exact ⟨mem, le_rfl⟩

theorem sublist_apply (apart : entry.Apart w) (apart' : entry.Apart w')
    (ordered : [w, w'].Sublist works) : [w, w'].Sublist (apply works entry) := by
  have erased (v : ω) (other : v ≠ w) (other' : v ≠ w') : [w, w'].Sublist (works.erase v) := by
    have kept := ordered.erase v
    rwa [erase_of_not_mem (by simp [other, other'])] at kept
  match entry with
  | submitted v =>
    exact sublist_append_of_sublist_left
      (erased v (fun same => apart.1 (by rw [same])) fun same => apart'.1 (by rw [same]))
  | cancelled v =>
    exact erased v (fun same => apart.2.1 (by rw [same])) fun same => apart'.2.1 (by rw [same])
  | called (.work v) =>
    exact erased v (fun same => apart.2.2 (by rw [same])) fun same => apart'.2.2 (by rw [same])
  | called .head | called .null => exact ordered

variable {entries : List (WorkEntry ω)}

theorem foldl_apply_of_apart (apart : ∀ entry ∈ entries, entry.Apart w) (mem : w ∈ works) :
    w ∈ entries.foldl apply works ∧ (entries.foldl apply works).idxOf w ≤ works.idxOf w := by
  induction entries generalizing works with
  | nil => exact ⟨mem, le_rfl⟩
  | cons entry entries ih =>
    obtain ⟨still, le⟩ := apply_of_apart (apart entry mem_cons_self) mem
    obtain ⟨still', le'⟩ := ih (fun e mem => apart e (mem_cons_of_mem entry mem)) still
    exact ⟨still', le'.trans le⟩

theorem sublist_foldl_apply (apart : ∀ entry ∈ entries, entry.Apart w)
    (apart' : ∀ entry ∈ entries, entry.Apart w') (ordered : [w, w'].Sublist works) :
    [w, w'].Sublist (entries.foldl apply works) := by
  induction entries generalizing works with
  | nil => exact ordered
  | cons entry entries ih =>
    exact ih (fun e mem => apart e (mem_cons_of_mem entry mem))
      (fun e mem => apart' e (mem_cons_of_mem entry mem))
      (sublist_apply (apart entry mem_cons_self) (apart' entry mem_cons_self) ordered)

theorem foldl_cancelled (works : List ω) : (works.map cancelled).foldl apply works = [] := by
  induction works with
  | nil => rfl
  | cons w works ih =>
    rw [map_cons, foldl_cons, apply, erase_cons_head]
    exact ih

end WorkEntry

namespace WorkQueue

variable {q q' : WorkQueue ω κ} {e : WorkEvent ω κ}

/-- As in `Careful`, and no work comes between the test and the suspension. -/
def Undisturbed (q : WorkQueue ω κ) : WorkEvent ω κ → Prop
  | .dowork _ _ | .criticalWork _ _ => q.worker ≠ .suspend
  | e => q.Careful e

instance (q : WorkQueue ω κ) : DecidablePred q.Undisturbed
  | .worker | .dowork _ _ | .criticalWork _ _ | .resume _ | .cancelWork _ _
  | .cancelWorkSync _ _ | .cancelAllWork _ => by
    unfold WorkQueue.Undisturbed
    infer_instance

theorem Undisturbed.careful (undisturbed : q.Undisturbed e) : q.Careful e := by
  cases e with
  | dowork | criticalWork => trivial
  | _ => exact undisturbed

theorem entries_of_submitted {w : ω} (isNew : .submitted w ∈ q.entries e) :
    q.entries e = [.submitted w] := by
  cases e with
  | dowork c v | criticalWork c v =>
    rw [entries] at isNew ⊢
    split_ifs at isNew ⊢
    · cases isNew
    · rw [mem_singleton.mp isNew]
  | worker =>
    rw [entries] at isNew
    split_ifs at isNew
    · cases mem_singleton.mp isNew
    · cases isNew
  | resume => cases isNew
  | cancelWork c v | cancelWorkSync c v =>
    rw [entries] at isNew
    split_ifs at isNew
    · cases isNew
    · cases mem_singleton.mp isNew
  | cancelAllWork c => obtain ⟨v, -, ⟨⟩⟩ := mem_map.mp isNew

theorem next_of_called {p : WorkPtr ω} (isNew : .called p ∈ q.entries e) : q.next = p := by
  cases e with
  | worker =>
    rw [entries] at isNew
    split_ifs at isNew
    · cases mem_singleton.mp isNew
      rfl
    · cases isNew
  | dowork c v | criticalWork c v | cancelWork c v | cancelWorkSync c v =>
    rw [entries] at isNew
    split_ifs at isNew
    · cases isNew
    · cases mem_singleton.mp isNew
  | resume => cases isNew
  | cancelAllWork c => obtain ⟨v, -, ⟨⟩⟩ := mem_map.mp isNew

variable [DecidableEq κ]

theorem workList_step (stepped : q.step e = some q') :
    q'.workList = (q.entries e).foldl WorkEntry.apply q.workList := by
  cases moves_of_step stepped with
  | worker _ works =>
    rw [entries]
    cases works with
    | take pc =>
      rw [if_pos pc, foldl_cons, foldl_nil, next]
      cases list : q.workList with
      | nil => rfl
      | cons w works => rw [WorkEntry.apply, erase_cons_head, tail_cons]
    | test pc | suspend pc | run w pc | complete pc =>
      rw [pc]
      rfl
  | dowork | criticalWork =>
    rw [submit, entries]
    split_ifs <;> rfl
  | resume => rfl
  | cancelWork =>
    rw [cancelWork, entries]
    split_ifs <;> rfl
  | cancelWorkSync =>
    rw [cancelWorkSync, entries]
    split_ifs <;> rfl
  | cancelAllWork => exact (WorkEntry.foldl_cancelled q.workList).symm

/-- A call of a client. -/
def ClientCall : WorkEvent ω κ → Prop
  | .worker | .resume _ => False
  | _ => True

theorem clientCall_step (stepped : q.step e = some q') (isCall : ClientCall e) :
    q'.stat = q.stat ∧ q'.worker = q.worker ∧ q'.workCurrent = q.workCurrent ∧
      ∀ c, q.client c = .resuming → q'.client c = .resuming := by
  have set {c d : κ} {pc : ClientPc} (idle : q.client c = .idle)
      (resuming : q.client d = .resuming) : update q.client c pc d = .resuming := by
    rw [update_of_ne, resuming]
    rintro rfl
    rw [idle] at resuming
    cases resuming
  cases moves_of_step stepped with
  | worker | resume => exact isCall.elim
  | dowork idle | criticalWork idle =>
    rw [submit]
    split_ifs
    · exact ⟨rfl, rfl, rfl, fun _ => id⟩
    · exact ⟨rfl, rfl, rfl, fun _ => set idle⟩
    · exact ⟨rfl, rfl, rfl, fun _ => id⟩
  | cancelWork idle =>
    rw [cancelWork]
    split_ifs <;> exact ⟨rfl, rfl, rfl, fun _ => id⟩
  | cancelWorkSync idle =>
    rw [cancelWorkSync]
    split_ifs
    · exact ⟨rfl, rfl, rfl, fun _ => set idle⟩
    · exact ⟨rfl, rfl, rfl, fun _ => id⟩
  | cancelAllWork => exact ⟨rfl, rfl, rfl, fun _ => id⟩

theorem Awake.clientCall (awake : q.Awake) (stepped : q.step e = some q') (isCall : ClientCall e)
    (none : q.worker = .suspend → q'.workList = [])
    (some : q.worker = .take → q'.workList ≠ [] → q.workList ≠ [] ∨ ∃ c, q'.client c = .resuming) :
    q'.Awake := by
  obtain ⟨stat, worker, current, clients⟩ := clientCall_step stepped isCall
  refine ⟨?_, ?_, ?_, ?_⟩
  · rw [worker]
    exact awake.runs
  · rw [worker, current]
    exact awake.rests
  · rw [worker]
    exact none
  · rw [stat, worker]
    refine awake.stat.imp_right fun ⟨suspended, taking, resumed⟩ =>
      ⟨suspended, taking, fun works => ?_⟩
    rcases some taking works with before | resuming
    · obtain ⟨c, resuming⟩ := resumed before
      exact ⟨c, clients c resuming⟩
    · exact resuming

theorem Awake.cancel (awake : q.Awake) (stepped : q.step e = some q') (isCall : ClientCall e)
    (emptied : q.workList = [] → (q.entries e).foldl WorkEntry.apply [] = []) : q'.Awake := by
  have still (empty : q.workList = []) : q'.workList = [] := by
    rw [workList_step stepped, empty, emptied empty]
  exact awake.clientCall stepped isCall (fun waits => still (awake.empty waits))
    fun _ works => .inl (mt still works)

theorem Awake.submit (awake : q.Awake) {c : κ} {w : ω} (stepped : q.step e = some (q.submit c w))
    (isCall : ClientCall e) (undisturbed : q.worker ≠ .suspend) : (q.submit c w).Awake := by
  refine awake.clientCall stepped isCall (fun waits => absurd waits undisturbed) fun taking _ => ?_
  have null := awake.rests (by simp [taking])
  rw [WorkQueue.submit, null, if_neg (by simp), if_pos rfl]
  exact .inr ⟨c, update_self ..⟩

theorem Awake.step (awake : q.Awake) (found : q.worker = .take → q.stat = .ready → q.workList ≠ [])
    (undisturbed : q.Undisturbed e) (stepped : q.step e = some q') : q'.Awake := by
  cases moves_of_step stepped with
  | worker ready works => exact awake.work (fun taking => found taking ready) ready works
  | resume =>
    refine ⟨awake.runs, awake.rests, awake.empty, .inl ?_⟩
    dsimp only [resume]
    rcases awake.stat with ready | ⟨suspended, -⟩
    · rw [ready]
      rfl
    · rw [suspended]
      rfl
  | dowork | criticalWork => exact awake.submit stepped trivial undisturbed
  | cancelWork | cancelWorkSync =>
    refine awake.cancel stepped trivial fun _ => ?_
    rw [entries]
    split_ifs <;> rfl
  | cancelAllWork =>
    refine awake.cancel stepped trivial fun empty => ?_
    rw [entries, empty]
    rfl

/-- The steps before a work is called. -/
def rank (w : ω) (q : WorkQueue ω κ) : ℕ := q.workList.idxOf w * 5 + q.distance

variable {w : ω}

theorem rank_worker (awake : q.Awake) (mem : w ∈ q.workList) (stepped : q.step .worker = some q')
    (apart : ∀ entry ∈ q.entries .worker, entry.Apart w) : q'.rank w < q.rank w := by
  have some : q.workList ≠ [] := ne_nil_of_mem mem
  cases moves_of_step stepped with
  | worker ready works => cases works with
    | test pc => simp [rank, distance, ready, pc, some]
    | suspend pc => exact absurd (awake.empty pc) some
    | take pc =>
      obtain ⟨v, works, same⟩ := exists_cons_of_ne_nil some
      have next : q.next = .work v := by rw [next, same]
      have other : v ≠ w := by
        rintro rfl
        refine (apart (.called (.work v)) ?_).2.2 rfl
        rw [entries, if_pos pc, next]
        exact mem_cons_self
      simp only [rank, distance, ready, pc, same, tail_cons, idxOf_cons_ne _ other,
        reduceCtorEq, if_false]
      omega
    | run v pc => simp [rank, distance, ready, pc]
    | complete pc => simp [rank, distance, ready, pc, workCompletion]

theorem rank_resume (awake : q.Awake) {c : κ} (stepped : q.step (.resume c) = some q')
    (suspended : q.stat = .suspend) : q'.rank w < q.rank w := by
  have taking := (awake.stat.resolve_left (by simp [suspended])).2.1
  cases moves_of_step stepped with
  | resume => simp [rank, distance, resume, suspended, taking, Stat.resumed]

theorem rank_clientCall (mem : w ∈ q.workList) (stepped : q.step e = some q')
    (isCall : ClientCall e) (apart : ∀ entry ∈ q.entries e, entry.Apart w) :
    q'.rank w ≤ q.rank w := by
  obtain ⟨stat, worker, -, -⟩ := clientCall_step stepped isCall
  have le := (WorkEntry.foldl_apply_of_apart apart mem).2
  rw [← workList_step stepped] at le
  rw [rank, rank, distance_congr stat worker]
  omega

end WorkQueue

/-! ## Runs -/

namespace WorkHistory

variable (state : ℕ → WorkHistory ω κ) (input : ℕ → Option (WorkEvent ω κ))

/-- An entry of a step. -/
def Happens (n : ℕ) (entry : WorkEntry ω) : Prop :=
  ∃ e, input n = some e ∧ entry ∈ (state n).queue.entries e

/-- A work is taken away. -/
def Withdrawn (n : ℕ) (w : ω) : Prop :=
  Happens state input n (.cancelled w) ∨ Happens state input n (.submitted w)

variable {state input} in
theorem workList_of_called {n : ℕ} {w : ω} (called : Happens state input n (.called (.work w))) :
    ∃ works, (state n).queue.workList = w :: works := by
  obtain ⟨e, h, isNew⟩ := called
  have next := WorkQueue.next_of_called isNew
  cases list : (state n).queue.workList with
  | nil =>
    rw [WorkQueue.next, list] at next
    cases next
  | cons v works =>
    rw [WorkQueue.next, list] at next
    obtain ⟨⟩ := next
    exact ⟨works, rfl⟩

variable {state input} in
theorem not_called_of_sublist {n : ℕ} {w w' : ω} (sound : (state n).Sound) (other : w ≠ w')
    (ordered : [w, w'].Sublist (state n).queue.workList) :
    ¬Happens state input n (.called (.work w')) := by
  intro called
  obtain ⟨works, list⟩ := workList_of_called called
  have nodup := sound.nodup
  rw [list] at ordered nodup
  rcases sublist_cons_iff.mp ordered with rest | ⟨_, same, -⟩
  · exact (nodup_cons.mp nodup).1 (rest.subset (by simp))
  · exact other (cons.inj same).1

variable [DecidableEq κ]

/-- Fairness to an event. -/
def FairTo (e : WorkEvent ω κ) : Prop :=
  Fairness.WeaklyFair (fun n => ((state n).step e).isSome) (fun n => input n = some e)

/-- A run without lost wake-ups. -/
structure Undisturbed : Prop where
  start : state 0 = .start
  path : Fairness.Path step state input
  steps : ∀ n e, input n = some e → (state n).queue.Undisturbed e

variable {state input}

theorem Undisturbed.inv (run : Undisturbed state input) (n : ℕ) :
    (state n).Sound ∧ (state n).queue.Awake := by
  apply run.path.invariant (I := fun h => h.Sound ∧ h.queue.Awake)
    (fun h e => h.queue.Undisturbed e) run.steps
  · rintro h e h' undisturbed ⟨sound, awake⟩ moved
    refine ⟨sound.step undisturbed.careful moved, ?_⟩
    obtain ⟨q, stepped, rfl⟩ := map_eq_some_iff.mp moved
    exact awake.step sound.found undisturbed stepped
  · rw [run.start]
    exact ⟨sound_start, WorkQueue.awake_create⟩

theorem Undisturbed.step (run : Undisturbed state input) {n : ℕ} {e : WorkEvent ω κ}
    (h : input n = some e) : (state n).queue.step e = some (state (n + 1)).queue := by
  obtain ⟨q, stepped, same⟩ := map_eq_some_iff.mp (run.path.moves n e h)
  rw [stepped, ← same]

theorem Undisturbed.mem_of_apart (run : Undisturbed state input) {n : ℕ} {w : ω}
    (apart : ∀ entry, Happens state input n entry → entry.Apart w)
    (mem : w ∈ (state n).queue.workList) : w ∈ (state (n + 1)).queue.workList := by
  cases h : input n with
  | none => rwa [run.path.idle n h]
  | some e =>
    rw [WorkQueue.workList_step (run.step h)]
    exact (WorkEntry.foldl_apply_of_apart (fun entry isNew => apart entry ⟨e, h, isNew⟩) mem).1

def helper (c : Option κ) : WorkEvent ω κ := c.elim .worker .resume

/-- The helper can step. -/
def Helps (h : WorkHistory ω κ) : Option κ → Prop
  | none => h.queue.stat = .ready
  | some c => h.queue.client c = .resuming ∧ h.queue.stat = .suspend

theorem isSome_step_worker {h : WorkHistory ω κ} (awake : h.queue.Awake)
    (ready : h.queue.stat = .ready) : (h.step .worker).isSome := by
  rw [step, WorkQueue.step, if_pos ready, WorkQueue.work, isSome_map]
  cases pc : h.queue.worker with
  | run p =>
    obtain ⟨w, rfl⟩ := awake.runs p pc
    rfl
  | _ => rfl

theorem Undisturbed.fair (run : Undisturbed state input) (fair : FairTo state input .worker)
    (fairClients : ∀ c, FairTo state input (.resume c)) (c : Option κ) :
    Fairness.WeaklyFair (fun n => (state n).Helps c)
      (fun n => input n = some (helper c) ∧ (state n).Helps c) := by
  cases c with
  | none => exact fair.strengthen fun n ready => isSome_step_worker (run.inv n).2 ready
  | some c =>
    refine (fairClients c).strengthen fun n ⟨resuming, _⟩ => ?_
    rw [WorkHistory.step, WorkQueue.step, if_pos resuming]
    rfl

/-- A step about other works brings the worker nearer, or leaves the helpers. -/
theorem rank_step {h h' : WorkHistory ω κ} {e : WorkEvent ω κ} {w : ω} (awake : h.queue.Awake)
    (mem : w ∈ h.queue.workList) (stepped : h.queue.step e = some h'.queue)
    (apart : ∀ entry ∈ h.queue.entries e, entry.Apart w) :
    h'.queue.rank w < h.queue.rank w ∨
      h'.queue.rank w = h.queue.rank w ∧ ∀ c, h.Helps c → h'.Helps c := by
  by_cases isCall : WorkQueue.ClientCall e
  · obtain ⟨stat, -, -, clients⟩ := WorkQueue.clientCall_step stepped isCall
    refine (WorkQueue.rank_clientCall mem stepped isCall apart).lt_or_eq.imp_right fun same =>
      ⟨same, fun c helps => ?_⟩
    cases c with
    | none => exact stat.trans helps
    | some c => exact ⟨clients c helps.1, stat.trans helps.2⟩
  · cases e with
    | worker => exact .inl (WorkQueue.rank_worker awake mem stepped apart)
    | resume c =>
      by_cases suspended : h.queue.stat = .suspend
      · exact .inl (WorkQueue.rank_resume awake stepped suspended)
      · rw [WorkQueue.step] at stepped
        split_ifs at stepped
        have same : (h.queue.resume c).stat = h.queue.stat := Stat.resumed_of_ne suspended
        refine .inr ⟨?_, fun c helps => ?_⟩
        · rw [← some.inj stepped, WorkQueue.rank, WorkQueue.rank,
            WorkQueue.distance_congr same rfl]
          rfl
        · cases c with
          | none =>
            rw [Helps, ← some.inj stepped]
            exact same.trans helps
          | some c => exact absurd helps.2 suspended
    | _ => exact absurd trivial isCall

theorem Undisturbed.eventually (run : Undisturbed state input) (fair : FairTo state input .worker)
    (fairClients : ∀ c, FairTo state input (.resume c)) {n : ℕ} {w : ω}
    (mem : w ∈ (state n).queue.workList) :
    ∃ m, n ≤ m ∧ ∃ entry, Happens state input m entry ∧ ¬entry.Apart w := by
  apply Fairness.eventually_of_rank (run.fair fair fairClients)
    (P := fun n => w ∈ (state n).queue.workList) (fun n => (state n).queue.rank w) ?_ ?_ ?_ mem
  · intro n mem quiet
    push Not at quiet
    refine ⟨run.mem_of_apart quiet mem, ?_⟩
    cases h : input n with
    | none =>
      rw [run.path.idle n h]
      exact .inr ⟨rfl, fun _ => id⟩
    | some e =>
      exact rank_step (run.inv n).2 mem (run.step h) fun entry isNew => quiet entry ⟨e, h, isNew⟩
  · intro n mem
    rcases (run.inv n).2.stat with ready | ⟨suspended, -, resumed⟩
    · exact ⟨none, ready⟩
    · obtain ⟨c, resuming⟩ := resumed (ne_nil_of_mem mem)
      exact ⟨some c, resuming, suspended⟩
  · rintro n c mem quiet ⟨taken, helps⟩
    push Not at quiet
    cases c with
    | none =>
      exact WorkQueue.rank_worker (run.inv n).2 mem (run.step taken) fun entry isNew =>
        quiet entry ⟨_, taken, isNew⟩
    | some c => exact WorkQueue.rank_resume (run.inv n).2 (run.step taken) helps.2

theorem Undisturbed.workList_of_submitted (run : Undisturbed state input) {n : ℕ} {w : ω}
    (submitted : Happens state input n (.submitted w)) :
    (state (n + 1)).queue.workList = (state n).queue.workList.erase w ++ [w] := by
  obtain ⟨e, h, isNew⟩ := submitted
  rw [WorkQueue.workList_step (run.step h), WorkQueue.entries_of_submitted isNew]
  rfl

theorem Undisturbed.ordered (run : Undisturbed state input) {n n' m : ℕ} {w w' : ω} (lt : n < n')
    (lt' : n' < m) (other : w ≠ w') (submitted : Happens state input n (.submitted w))
    (submitted' : Happens state input n' (.submitted w'))
    (called : Happens state input m (.called (.work w')))
    (kept : ∀ k, n < k → k < m → ¬Withdrawn state input k w)
    (kept' : ∀ k, n' < k → k < m → ¬Withdrawn state input k w') :
    ∃ k, n < k ∧ k < m ∧ Happens state input k (.called (.work w)) := by
  by_contra! never
  have apart (k : ℕ) (above : n < k) (below : k < m) (entry : WorkEntry ω)
      (happens : Happens state input k entry) : entry.Apart w := by
    refine ⟨?_, ?_, ?_⟩ <;> rintro rfl
    · exact kept k above below (.inr happens)
    · exact kept k above below (.inl happens)
    · exact never k above below happens
  have mem (k : ℕ) (above : n + 1 ≤ k) (below : k ≤ m) : w ∈ (state k).queue.workList := by
    induction k, above using Nat.le_induction with
    | base =>
      rw [run.workList_of_submitted submitted]
      exact mem_append_right _ mem_cons_self
    | succ k above ih => exact run.mem_of_apart (apart k above below) (ih (by omega))
  have ordered (k : ℕ) (above : n' + 1 ≤ k) (below : k ≤ m) :
      [w, w'].Sublist (state k).queue.workList := by
    induction k, above using Nat.le_induction with
    | base =>
      rw [run.workList_of_submitted submitted']
      have still := (mem_erase_of_ne other).mpr (mem n' lt (by omega))
      exact (singleton_sublist.mpr still).append (List.Sublist.refl [w'])
    | succ k above ih =>
      have before := ih (by omega)
      cases h : input k with
      | none => rwa [run.path.idle k h]
      | some e =>
        rw [WorkQueue.workList_step (run.step h)]
        refine WorkEntry.sublist_foldl_apply (fun entry isNew => ?_) (fun entry isNew => ?_) before
        · exact apart k (by omega) below entry ⟨e, h, isNew⟩
        · refine ⟨?_, ?_, ?_⟩ <;> rintro rfl
          · exact kept' k above below (.inr ⟨e, h, isNew⟩)
          · exact kept' k above below (.inl ⟨e, h, isNew⟩)
          · exact not_called_of_sublist (run.inv k).1 other before ⟨e, h, isNew⟩
  exact not_called_of_sublist (run.inv m).1 other (ordered m lt' le_rfl) called

/-! ## All together -/

/-- Without lost wake-ups a worker with a work is about to be resumed. If all are treated fairly,
every work is called, in order, unless it is cancelled or submitted again. -/
theorem submitted_called (run : Undisturbed state input) :
    (∀ n, (∀ c, (state n).queue.client c ≠ .resuming) → (state n).queue.workList ≠ [] →
      (∀ p, (state n).queue.worker ≠ .run p) → (state n).queue.stat ≠ .suspend) ∧
    (FairTo state input .worker → (∀ c, FairTo state input (.resume c)) →
      ∀ n w, Happens state input n (.submitted w) →
        ∃ m, n < m ∧ (Happens state input m (.called (.work w)) ∨ Withdrawn state input m w)) ∧
    ∀ n n' m w w', n < n' → n' < m → w ≠ w' → Happens state input n (.submitted w) →
      Happens state input n' (.submitted w') → Happens state input m (.called (.work w')) →
      (∀ k, n < k → k < m → ¬Withdrawn state input k w) →
      (∀ k, n' < k → k < m → ¬Withdrawn state input k w') →
        ∃ k, n < k ∧ k < m ∧ Happens state input k (.called (.work w)) := by
  refine ⟨fun n nobody works _ suspended => ?_, fun fair fairClients n w submitted => ?_,
    fun n n' m w w' lt lt' other submitted submitted' called kept kept' =>
      run.ordered lt lt' other submitted submitted' called kept kept'⟩
  · rcases (run.inv n).2.stat with ready | ⟨-, -, resumed⟩
    · rw [ready] at suspended
      cases suspended
    · obtain ⟨c, resuming⟩ := resumed works
      exact nobody c resuming
  · have mem : w ∈ (state (n + 1)).queue.workList := by
      rw [run.workList_of_submitted submitted]
      exact mem_append_right _ mem_cons_self
    obtain ⟨m, le, entry, happens, concerns⟩ := run.eventually fair fairClients mem
    refine ⟨m, le, ?_⟩
    by_contra! neither
    refine concerns ⟨?_, ?_, ?_⟩ <;> rintro rfl
    · exact neither.2 (.inr happens)
    · exact neither.2 (.inl happens)
    · exact neither.1 happens

/-- A work is called. -/
def oneWork : List (WorkEvent ℕ Unit) :=
  [.worker, .worker, .dowork () 7, .resume (), .worker, .worker, .worker, .worker, .worker]

theorem oneWork_last {n : ℕ} (long : oneWork.length ≤ n) :
    (Fairness.states step start oneWork n).queue.stat = .suspend ∧
      ∀ c, (Fairness.states step start oneWork n).queue.client c = .idle := by
  rw [Fairness.states, take_of_length_le long]
  decide +kernel

theorem submitted_called_oneWork :
    ∃ (state : ℕ → WorkHistory ℕ Unit) (input : ℕ → Option (WorkEvent ℕ Unit)),
      Undisturbed state input ∧ FairTo state input .worker ∧ (∀ c, FairTo state input (.resume c)) ∧
      Happens state input 2 (.submitted 7) ∧
      ∃ m, 2 < m ∧ (Happens state input m (.called (.work 7)) ∨ Withdrawn state input m 7) := by
  have run : Undisturbed (Fairness.states step start oneWork) (fun n => oneWork[n]?) := by
    have steps : ∀ n (lt : n < oneWork.length),
        (Fairness.states step start oneWork n).queue.Undisturbed oneWork[n] := by decide +kernel
    refine ⟨rfl, Fairness.path_states (by decide +kernel), fun n e h => ?_⟩
    obtain ⟨lt, rfl⟩ := List.getElem?_eq_some_iff.mp h
    exact steps n lt
  have fair : FairTo (Fairness.states step start oneWork) (fun n => oneWork[n]?) .worker := by
    intro n stays
    have possible := stays (max n oneWork.length) (le_max_left ..)
    dsimp only at possible
    rw [WorkHistory.step, WorkQueue.step, (oneWork_last (le_max_right ..)).1] at possible
    cases possible
  have fairClients (c : Unit) :
      FairTo (Fairness.states step start oneWork) (fun n => oneWork[n]?) (.resume c) := by
    intro n stays
    have possible := stays (max n oneWork.length) (le_max_left ..)
    dsimp only at possible
    rw [WorkHistory.step, WorkQueue.step, (oneWork_last (le_max_right ..)).2 c] at possible
    cases possible
  have submitted : Happens (Fairness.states step start oneWork) (fun n => oneWork[n]?) 2
      (.submitted 7) := ⟨.dowork () 7, rfl, by decide +kernel⟩
  exact ⟨_, _, run, fair, fairClients, submitted,
    (submitted_called run).2.1 fair fairClients 2 7 submitted⟩

/-- A work comes between the test and the suspension: the worker is resumed, and then suspended. -/
theorem wakeup_lost :
    ∃ h, Run.run (Run.lift step) (some (start : WorkHistory ℕ Unit))
        [.worker, .dowork () 7, .resume (), .worker] = some h ∧
      h.queue.workList = [7] ∧ h.queue.worker = .take ∧ h.queue.stat = .suspend ∧
      ∀ c, h.queue.client c = .idle :=
  ⟨_, rfl, rfl, rfl, rfl, fun _ => rfl⟩

end WorkHistory

end Tm4cPilot.Rtt
