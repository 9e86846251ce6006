import Tm4cPilot.Lib.Agenda
import Tm4cPilot.Rtt.Timer

/-!
# When timers fire

Hard timers with timeout functions that do not touch the timers.  `Keeps` relates the 32-bit ticks
to the alarms of an agenda in unbounded time: pending timeouts are less than half of the range away.
-/

namespace Tm4cPilot.Rtt

open List Function Agenda SkipList Run

/-! ## Comparing wrapped ticks -/

theorem toNat_halfTickMax : halfTickMax.toNat = 0x7fffffff := by decide

theorem toNat_tick_sub (tick : UInt32) {x y : ℕ} (hx : x < 0x7fffffff) (hy : y < 0x7fffffff) :
    (tick + UInt32.ofNat x - (tick + UInt32.ofNat y)).toNat =
      if y ≤ x then x - y else 0x100000000 + x - y := by
  have isX : (UInt32.ofNat x).toNat = x := UInt32.toNat_ofNat_of_lt (hx.trans (by decide))
  have isY : (UInt32.ofNat y).toNat = y := UInt32.toNat_ofNat_of_lt (hy.trans (by decide))
  rw [UInt32.toNat_sub, UInt32.toNat_add, UInt32.toNat_add, isX, isY]
  split_ifs <;> omega

namespace Timers

variable {config : TimerConfig} {period : ℕ → ℕ} {repeats : ℕ → Bool} {s : Timers} {a : Agenda ℕ}
  {t u : ℕ}

/-- The last row holds the pending alarms by their times and, for one time, their starts. -/
structure Keeps (config : TimerConfig) (period : ℕ → ℕ) (repeats : ℕ → Bool) (s : Timers)
    (a : Agenda ℕ) : Prop where
  fixed : ∀ t, (s.timer t).soft = false ∧ (s.timer t).initTick.toNat = period t ∧
    (s.timer t).periodic = repeats t
  part : ∀ i < config.last, (s.row false i).Sublist (s.row false (i + 1))
  nodup : (s.row false config.last).Nodup
  nodupPending : a.pending.Nodup
  sorted : (s.row false config.last).Pairwise fun t u => a.due t ≤ a.due u
  same : ∀ d, ((s.row false config.last).filter fun t => a.due t = d) =
    a.pending.filter fun t => a.due t = d
  window : ∀ t ∈ s.row false config.last, a.now ≤ a.due t ∧ a.due t - a.now < 0x7fffffff
  timeout : ∀ t ∈ s.row false config.last,
    (s.timer t).timeoutTick = s.tick + UInt32.ofNat (a.due t - a.now)
  activated : ∀ t ∈ s.row false config.last, (s.timer t).activated = true

namespace Keeps

section

variable (keeps : Keeps config period repeats s a)
include keeps

theorem mem_pending : t ∈ s.row false config.last ↔ t ∈ a.pending := by
  have here := keeps.same (a.due t)
  constructor
  · intro inRow
    have isDue : t ∈ (s.row false config.last).filter fun u => a.due u = a.due t := by
      simpa using inRow
    rw [here] at isDue
    exact mem_of_mem_filter isDue
  · intro isPending
    have isDue : t ∈ a.pending.filter fun u => a.due u = a.due t := by simpa using isPending
    rw [← here] at isDue
    exact mem_of_mem_filter isDue

theorem sublist_last {i : ℕ} (inside : i ≤ config.last) :
    (s.row false i).Sublist (s.row false config.last) := by
  induction inside using Nat.decreasingInduction with
  | self => exact List.Sublist.refl _
  | of_succ i below ih => exact (keeps.part i below).trans ih

theorem timedOut_iff (inRow : t ∈ s.row false config.last) :
    s.TimedOut s.tick t ↔ a.due t = a.now := by
  obtain ⟨notLate, near⟩ := keeps.window t inRow
  have delta := toNat_tick_sub s.tick (x := 0) (by omega) near
  rw [TimedOut, keeps.timeout t inRow, UInt32.lt_iff_toNat_lt, toNat_halfTickMax]
  rw [show s.tick + UInt32.ofNat 0 = s.tick from by simp] at delta
  rw [delta]
  split_ifs <;> omega

theorem remove (t : ℕ) :
    Keeps config period repeats (s.timerRemove t) (a.stop t) where
  fixed := keeps.fixed
  part i below := (keeps.part i below).erase t
  nodup := keeps.nodup.erase t
  nodupPending := keeps.nodupPending.erase t
  sorted := keeps.sorted.sublist erase_sublist
  same d := by
    rw [row_timerRemove, filter_erase keeps.nodup]
    show _ = (a.pending.erase t).filter _
    rw [filter_erase keeps.nodupPending]
    exact congrArg (·.erase t) (keeps.same d)
  window u inRow := keeps.window u (mem_of_mem_erase inRow)
  timeout u inRow := keeps.timeout u (mem_of_mem_erase inRow)
  activated u inRow := keeps.activated u (mem_of_mem_erase inRow)

theorem deactivate (unlinked : t ∉ s.row false config.last) :
    Keeps config period repeats (s.modify t fun timer => { timer with activated := false }) a := by
  have others (u : ℕ) (inRow : u ∈ s.row false config.last) : u ≠ t := by
    rintro rfl
    exact unlinked inRow
  refine ⟨fun u => ?_, keeps.part, keeps.nodup, keeps.nodupPending,
    keeps.sorted, keeps.same, keeps.window, fun u inRow => ?_, fun u inRow => ?_⟩
  · by_cases same : u = t
    · subst same
      simpa using keeps.fixed u
    · simpa [same] using keeps.fixed u
  · rw [timer_modify_of_ne _ (others u inRow)]
    exact keeps.timeout u inRow
  · rw [timer_modify_of_ne _ (others u inRow)]
    exact keeps.activated u inRow

theorem stop (t : ℕ) : Keeps config period repeats (s.timerStop t).1 (a.stop t) := by
  rw [timerStop]
  split_ifs with inactive
  · -- the timer is not linked
    have unlinked : t ∉ a.pending := by
      intro isPending
      rw [keeps.activated t (keeps.mem_pending.mpr isPending)] at inactive
      cases inactive
    rw [Agenda.stop, erase_of_not_mem unlinked]
    exact keeps
  · exact (keeps.remove t).deactivate keeps.nodup.not_mem_erase

/-! ## Starting -/

/-- A timer is put behind those that are due before it or at the same time. -/
theorem passes_iff (s' : Timers)
    (timer : ∀ u, u ≠ t → (s'.timer u).timeoutTick = (s.timer u).timeoutTick) {d : ℕ}
    (near : d < 0x7fffffff) (here : (s'.timer t).timeoutTick = s.tick + UInt32.ofNat d)
    (inRow : u ∈ s.row false config.last) (other : u ≠ t) :
    s'.passes t u = decide (a.due u ≤ a.now + d) := by
  obtain ⟨notLate, inWindow⟩ := keeps.window u inRow
  have delta := toNat_tick_sub s.tick inWindow near
  rw [← keeps.timeout u inRow, ← timer u other, ← here] at delta
  have zero : (s'.timer u).timeoutTick - (s'.timer t).timeoutTick = 0 ↔ a.due u - a.now = d := by
    rw [← UInt32.toNat_inj, delta, UInt32.toNat_zero]
    split_ifs <;> omega
  by_cases equal : a.due u - a.now = d
  · simp only [passes, zero.mpr equal, if_true]
    exact (decide_eq_true (by omega)).symm
  · simp only [passes, zero, equal, if_false, UInt32.lt_iff_toNat_lt, delta, toNat_halfTickMax]
    rw [Bool.eq_iff_iff]
    simp only [Bool.not_eq_true', decide_eq_false_iff_not, decide_eq_true_iff]
    split_ifs <;> omega

end

/-- The timers before a new one, the new one, and the others. -/
def inserted (a : Agenda ℕ) (d t : ℕ) (row : List ℕ) : List ℕ :=
  (row.filter fun u => a.due u ≤ a.now + d) ++ t :: row.filter fun u => !decide (a.due u ≤ a.now + d)

variable {row : List ℕ}

theorem mem_inserted {d : ℕ} : u ∈ inserted a d t row ↔ u = t ∨ u ∈ row := by
  simp only [inserted, mem_append, mem_cons, mem_filter, decide_eq_true_iff,
    Bool.not_eq_true', decide_eq_false_iff_not]
  tauto

theorem sublist_inserted (a : Agenda ℕ) (d t : ℕ) {below : List ℕ} (part : row.Sublist below) :
    (inserted a d t row).Sublist (inserted a d t below) :=
  (part.filter _).append ((part.filter _).cons_cons t)

theorem sublist_inserted_self (d t : ℕ)
    (sorted : row.Pairwise fun u v => a.due u ≤ a.due v) : row.Sublist (inserted a d t row) := by
  have parted : SkipList.Parted (fun u => decide (a.due u ≤ a.now + d)) row := by
    refine parted_of_pairwise (sorted.imp fun order passed => ?_)
    rw [decide_eq_true_iff] at passed ⊢
    exact order.trans passed
  nth_rewrite 1 [← parted]
  exact (List.Sublist.refl _).append (sublist_cons_self t _)

theorem row_start (keeps : Keeps config period repeats s a) (near : period t < 0x7fffffff) {i : ℕ}
    (inside : i ≤ config.last) :
    (s.timerStart config t).row false i =
      if config.last - extraRows config.mask (s.randomNr + 1) config.last ≤ i then
        inserted a (period t) t ((s.row false i).erase t)
      else (s.row false i).erase t := by
  obtain ⟨hard, init, -⟩ := keeps.fixed t
  set s' := ((s.timerRemove t).modify t fun timer => { timer with activated := false }).modify t
    fun timer => { timer with timeoutTick := s.tick + timer.initTick } with isS'
  have soft : (s'.timer t).soft = false := by simpa [isS'] using hard
  have row (i : ℕ) : s'.row false i = (s.row false i).erase t := rfl
  have passes (u : ℕ) (inRow : u ∈ s'.row false config.last) :
      s'.passes t u = decide (a.due u ≤ a.now + period t) := by
    have ne : u ≠ t := by
      rintro rfl
      exact keeps.nodup.not_mem_erase inRow
    refine keeps.passes_iff s' (fun v other => by simp [isS', other]) near ?_
      (mem_of_mem_erase inRow) ne
    rw [← init, UInt32.ofNat_toNat]
    simp [isS']
  have below {i : ℕ} (inside : i ≤ config.last) :
      (s'.row false i).Sublist (s'.row false config.last) := (keeps.sublist_last inside).erase t
  have nodup {i : ℕ} (inside : i ≤ config.last) : (s'.row false i).Nodup :=
    (below inside).nodup (keeps.nodup.erase t)
  have parted {i : ℕ} (inside : i ≤ config.last) :
      SkipList.Parted (s'.passes t) (s'.row false i) := by
    refine parted_of_pairwise ?_
    have sorted := (keeps.sorted.sublist erase_sublist).sublist (below inside)
    refine sorted.imp_of_mem fun {u v} inU inV order passed => ?_
    rw [passes _ ((below inside).subset inV), decide_eq_true_iff] at passed
    rw [passes _ ((below inside).subset inU), decide_eq_true_iff]
    exact order.trans passed
  have heads := heads_eq (fun i inside => parted inside) (fun i inside => nodup inside)
    (fun i inside => (keeps.part i inside).erase t) inside
  have place := insertAfter_eq (parted inside) (nodup inside) t
  have isInserted : insertAfter t (SkipList.heads (s'.passes t) (s'.row false) i)
      (s'.row false i) = inserted a (period t) t ((s.row false i).erase t) := by
    rw [heads, place, inserted, ← row]
    have same : ∀ u ∈ s'.row false i, s'.passes t u = decide (a.due u ≤ a.now + period t) :=
      fun u inRow => passes u ((below inside).subset inRow)
    rw [filter_congr same, filter_congr fun u inRow => congrArg (!·) (same u inRow)]
  show (s'.timerInsert config t).row false i = _
  simp only [timerInsert, row_modify, soft, update_self, isInserted, inside, and_true]
  rfl

theorem filter_inserted (absent : t ∉ row) (d e : ℕ) :
    ((inserted a d t row).filter fun u => update a.due t (a.now + d) u = e) =
      (row.filter fun u => a.due u = e) ++ if a.now + d = e then [t] else [] := by
  have old (u : ℕ) (inRow : u ∈ row) : update a.due t (a.now + d) u = a.due u := by
    have ne : u ≠ t := by
      rintro rfl
      exact absent inRow
    exact update_of_ne ne _ _
  have part (q : ℕ → Bool) :
      ((row.filter q).filter fun u => update a.due t (a.now + d) u = e) =
        row.filter fun u => decide (a.due u = e) && q u := by
    rw [filter_filter]
    exact filter_congr fun u inRow => by rw [old u inRow]
  rw [inserted, filter_append, filter_cons, part, part, update_self]
  by_cases before : e ≤ a.now + d
  · -- nothing behind the new timer is due at this time
    have front : (row.filter fun u => decide (a.due u = e) && decide (a.due u ≤ a.now + d)) =
        row.filter fun u => a.due u = e := by
      refine filter_congr fun u _ => ?_
      rw [Bool.eq_iff_iff, Bool.and_eq_true, decide_eq_true_iff, decide_eq_true_iff]
      omega
    have back : (row.filter fun u => decide (a.due u = e) && !decide (a.due u ≤ a.now + d)) = [] := by
      refine filter_eq_nil_iff.mpr fun u _ => ?_
      rw [Bool.and_eq_true, decide_eq_true_iff, Bool.not_eq_true', decide_eq_false_iff_not]
      omega
    rw [front, back]
    simp only [decide_eq_true_iff]
  · -- nothing before the new timer is
    have front : (row.filter fun u => decide (a.due u = e) && decide (a.due u ≤ a.now + d)) = [] := by
      refine filter_eq_nil_iff.mpr fun u _ => ?_
      rw [Bool.and_eq_true, decide_eq_true_iff, decide_eq_true_iff]
      omega
    have back : (row.filter fun u => decide (a.due u = e) && !decide (a.due u ≤ a.now + d)) =
        row.filter fun u => a.due u = e := by
      refine filter_congr fun u _ => ?_
      rw [Bool.eq_iff_iff, Bool.and_eq_true, decide_eq_true_iff, Bool.not_eq_true',
        decide_eq_false_iff_not]
      omega
    have notHere : a.now + d ≠ e := by omega
    rw [front, back]
    simp [notHere]

theorem sorted_inserted (absent : t ∉ row) (d : ℕ)
    (sorted : row.Pairwise fun u v => a.due u ≤ a.due v) :
    (inserted a d t row).Pairwise fun u v => update a.due t (a.now + d) u ≤
      update a.due t (a.now + d) v := by
  have old (u : ℕ) (inRow : u ∈ row) : update a.due t (a.now + d) u = a.due u := by
    have ne : u ≠ t := by
      rintro rfl
      exact absent inRow
    exact update_of_ne ne _ _
  have kept : row.Pairwise fun u v => update a.due t (a.now + d) u ≤
      update a.due t (a.now + d) v :=
    sorted.imp_of_mem fun inU inV order => by rwa [old _ inU, old _ inV]
  have front (u : ℕ) (inFront : u ∈ row.filter fun u => a.due u ≤ a.now + d) :
      update a.due t (a.now + d) u ≤ a.now + d := by
    obtain ⟨inRow, early⟩ := mem_filter.mp inFront
    rw [old u inRow]
    exact of_decide_eq_true early
  have back (u : ℕ) (inBack : u ∈ row.filter fun u => !decide (a.due u ≤ a.now + d)) :
      a.now + d ≤ update a.due t (a.now + d) u := by
    obtain ⟨inRow, late⟩ := mem_filter.mp inBack
    rw [Bool.not_eq_true', decide_eq_false_iff_not] at late
    rw [old u inRow]
    omega
  refine pairwise_append.mpr ⟨kept.filter _, pairwise_cons.mpr ⟨fun v inBack => ?_,
    kept.filter _⟩, fun u inFront v inRest => ?_⟩
  · rw [update_self]
    exact back v inBack
  · rcases mem_cons.mp inRest with rfl | inBack
    · rw [update_self]
      exact front u inFront
    · exact (front u inFront).trans (back v inBack)

section

variable (keeps : Keeps config period repeats s a)
include keeps

theorem start (near : period t < 0x7fffffff) :
    Keeps config period repeats (s.timerStart config t) (a.start period t) := by
  have absent : t ∉ (s.row false config.last).erase t := keeps.nodup.not_mem_erase
  have lastRow : (s.timerStart config t).row false config.last =
      inserted a (period t) t ((s.row false config.last).erase t) := by
    rw [keeps.row_start near le_rfl, if_pos (Nat.sub_le _ _)]
  have others (u : ℕ) (ne : u ≠ t) (inRow : u ∈ (s.timerStart config t).row false config.last) :
      u ∈ s.row false config.last ∧ (a.start period t).due u = a.due u := by
    rw [lastRow, mem_inserted] at inRow
    exact ⟨mem_of_mem_erase (inRow.resolve_left ne), update_of_ne ne _ _⟩
  have here : (a.start period t).due t = a.now + period t := update_self ..
  refine ⟨fun u => ?_, fun i below => ?_, ?_, start_nodup keeps.nodupPending t, ?_, fun e => ?_,
    fun u inRow => ?_, fun u inRow => ?_, fun u inRow => ?_⟩
  · by_cases same : u = t
    · subst same
      simpa using keeps.fixed u
    · simpa [same] using keeps.fixed u
  · rw [keeps.row_start near below.le, keeps.row_start near below]
    have part := (keeps.part i below).erase t
    split_ifs with upper lower
    · exact sublist_inserted a _ t part
    · omega
    · -- the row below is the first one that the timer is linked in
      refine part.trans (sublist_inserted_self _ t ?_)
      exact (keeps.sorted.sublist (keeps.sublist_last below)).sublist erase_sublist
    · exact part
  · have perm : ((s.timerStart config t).row false config.last).Perm
        (t :: (s.row false config.last).erase t) := by
      rw [lastRow]
      exact perm_middle.trans ((filter_append_perm _ _).cons t)
    exact perm.nodup_iff.mpr (nodup_cons.mpr ⟨absent, keeps.nodup.erase t⟩)
  · rw [lastRow]
    exact sorted_inserted absent _ (keeps.sorted.sublist erase_sublist)
  · have old := keeps.same e
    rw [lastRow]
    refine (filter_inserted absent (period t) e).trans ?_
    have new := filter_start period keeps.nodupPending t fun d => decide (d = e)
    rw [new, filter_erase keeps.nodup, filter_erase keeps.nodupPending, old]
    simp only [decide_eq_true_iff]
  · by_cases same : u = t
    · subst same
      rw [here]
      exact ⟨Nat.le_add_right _ _, by simpa [Agenda.start] using near⟩
    · obtain ⟨before, due⟩ := others u same inRow
      rw [due]
      exact keeps.window u before
  · by_cases same : u = t
    · subst same
      rw [here, timer_timerStart_self, tick_timerStart]
      show s.tick + (s.timer u).initTick = s.tick + UInt32.ofNat (a.now + period u - a.now)
      rw [Nat.add_sub_cancel_left, ← (keeps.fixed u).2.1, UInt32.ofNat_toNat]
    · obtain ⟨before, due⟩ := others u same inRow
      rw [due, timer_timerStart_of_ne same]
      exact keeps.timeout u before
  · by_cases same : u = t
    · subst same
      rw [timer_timerStart_self]
    · rw [timer_timerStart_of_ne same]
      exact keeps.activated u (others u same inRow).1

/-! ## Ticks -/

theorem fire (near : ∀ t, period t < 0x7fffffff) {rest : List ℕ}
    (first : (a.pending.filter fun u => a.due u = a.now) = t :: rest) :
    s.timerFire config = some (t, s.timerRemove t) ∧
      Keeps config period repeats ((s.timerRemove t).timerReturn config t)
        (a.next period repeats t) := by
  rw [← keeps.same] at first
  cases isRow : s.row false config.last with
  | nil => simp [isRow] at first
  | cons u row =>
    -- the first timer of the row is due, as all others come later
    have isDue : a.due u = a.now := by
      by_contra later
      have none : ((s.row false config.last).filter fun v => a.due v = a.now) = [] := by
        refine filter_eq_nil_iff.mpr fun v inRow isNow => ?_
        have notLate := (keeps.window u (isRow ▸ mem_cons_self)).1
        have sorted := keeps.sorted
        rw [isRow] at inRow sorted
        rcases mem_cons.mp inRow with rfl | behind
        · exact later (of_decide_eq_true isNow)
        · have order := (pairwise_cons.mp sorted).1 v behind
          rw [of_decide_eq_true isNow] at order
          omega
      rw [none] at first
      cases first
    obtain rfl : u = t := by
      rw [isRow, filter_cons_of_pos (by simpa using isDue)] at first
      exact (cons.inj first).1
    have inRow : u ∈ s.row false config.last := isRow ▸ mem_cons_self
    have removed := (keeps.remove u).deactivate (t := u) keeps.nodup.not_mem_erase
    constructor
    · rw [timerFire, isRow]
      exact if_pos ((keeps.timedOut_iff inRow).mpr isDue)
    · rw [timerReturn, Agenda.next, timer_timerRemove, keeps.activated u inRow, (keeps.fixed u).2.2]
      simp only [and_true]
      split_ifs with again
      · have started := removed.start (near u)
        rwa [stop_start keeps.nodupPending] at started
      · exact removed

theorem check (positive : ∀ t, 0 < period t) (near : ∀ t, period t < 0x7fffffff) {ts : List ℕ}
    (now : (a.pending.filter fun u => a.due u = a.now) = ts) {rounds : ℕ}
    (enough : ts.length < rounds) :
    ∃ s', timerCheck config rounds s = some (s', ts) ∧
      Keeps config period repeats s' (a.settle period repeats ts) := by
  induction rounds generalizing s a ts with
  | zero => exact absurd enough (Nat.not_lt_zero _)
  | succ rounds ih =>
    rw [timerCheck]
    cases ts with
    | nil =>
      have none : s.timerFire config = none := by
        rw [timerFire]
        cases isRow : s.row false config.last with
        | nil => rfl
        | cons t row =>
          have inRow : t ∈ s.row false config.last := isRow ▸ mem_cons_self
          refine if_neg fun timedOut => ?_
          rw [← keeps.same] at now
          exact filter_eq_nil_iff.mp now t inRow
            (decide_eq_true ((keeps.timedOut_iff inRow).mp timedOut))
      rw [none]
      exact ⟨s, rfl, keeps⟩
    | cons t ts =>
      obtain ⟨fires, next⟩ := keeps.fire near now
      have isNow : (a.next period repeats t).now = a.now := by
        rw [Agenda.next]
        split_ifs <;> rfl
      obtain ⟨rest, -⟩ := filter_next repeats positive keeps.nodupPending now
      obtain ⟨s', checked, kept⟩ := ih next (by rw [isNow]; exact rest)
        (Nat.lt_of_succ_lt_succ enough)
      simp only [fires, checked]
      exact ⟨s', rfl, kept⟩

theorem increase (ahead : a.Ahead) (firings : List (List ℕ)) :
    Keeps config period repeats { s with tick := s.tick + 1 } { a with now := a.now + 1, firings } := by
  have later (t : ℕ) (inRow : t ∈ s.row false config.last) : a.now < a.due t :=
    ahead.ahead t (keeps.mem_pending.mp inRow)
  refine ⟨keeps.fixed, keeps.part, keeps.nodup, keeps.nodupPending, keeps.sorted, keeps.same,
    fun t inRow => ?_, fun t inRow => ?_, keeps.activated⟩
  · have := keeps.window t inRow
    have := later t inRow
    dsimp only
    omega
  · have := later t inRow
    show (s.timer t).timeoutTick = s.tick + 1 + UInt32.ofNat (a.due t - (a.now + 1))
    rw [keeps.timeout t inRow, UInt32.add_assoc, show (1 : UInt32) = UInt32.ofNat 1 from rfl,
      ← UInt32.ofNat_add]
    congr 2
    omega

theorem tickIncrease (ahead : a.Ahead) (positive : ∀ t, 0 < period t)
    (near : ∀ t, period t < 0x7fffffff) :
    ∃ s', s.tickIncrease config = some (s', a.fired) ∧
      Keeps config period repeats s' (a.tick period repeats) := by
  have enough : a.fired.length < (s.row false config.last).length + 1 := by
    have shorter := length_filter_le (fun t => decide (a.due t = a.now + 1))
      (s.row false config.last)
    rw [keeps.same] at shorter
    exact Nat.lt_succ_of_le shorter
  obtain ⟨s', checked, kept⟩ := (keeps.increase ahead (a.firings ++ [a.fired])).check positive near rfl
    enough
  rw [ahead.tick_eq positive]
  exact ⟨s', checked, kept⟩

end

end Keeps

theorem tick_timerReturn (t : ℕ) : (s.timerReturn config t).tick = s.tick := by
  rw [timerReturn]
  split_ifs <;> rfl

theorem tick_timerCheck {rounds : ℕ} {s' : Timers} {ts : List ℕ}
    (h : timerCheck config rounds s = some (s', ts)) : s'.tick = s.tick := by
  induction rounds generalizing s ts with
  | zero => cases h
  | succ rounds ih =>
    rw [timerCheck] at h
    cases fires : s.timerFire config with
    | none =>
      simp only [fires, Option.some.injEq, Prod.mk.injEq] at h
      rw [← h.1]
    | some fired =>
      simp only [fires, Option.map_eq_some_iff, Prod.mk.injEq] at h
      obtain ⟨result, checked, rfl, -⟩ := h
      rw [ih checked, tick_timerReturn]
      unfold timerFire at fires
      split at fires
      · cases fires
      · split_ifs at fires
        cases fires
        rfl

end Timers

/-! ## Runs -/

/-- The timers, and which ones have been called in each tick. -/
structure Ticking where
  timers : Timers
  firings : List (List ℕ)

namespace Ticking

/-- `rt_timer_start`, `rt_timer_stop` or `rt_tick_increase`. -/
def step (config : TimerConfig) (p : Ticking) : Agenda.Event ℕ → Option Ticking
  | .start t => some { p with timers := p.timers.timerStart config t }
  | .stop t => some { p with timers := (p.timers.timerStop t).1 }
  | .tick => (p.timers.tickIncrease config).map fun result => ⟨result.1, p.firings ++ [result.2]⟩

/-- The timers of a tick. -/
def firedAt (p : Ticking) (m : ℕ) : List ℕ := p.firings.getD (m - 1) []

/-- The order of the starts. -/
def startOrder (s : Timers) (events : List (Agenda.Event ℕ)) : List ℕ :=
  (Agenda.empty.play (fun t => (s.timer t).initTick.toNat) (fun t => (s.timer t).periodic)
    events).pending

/-- The ticks that remain. -/
def remaining (s : Timers) (t : ℕ) : ℕ := ((s.timer t).timeoutTick - s.tick).toNat

/-- The timers fire exactly when they are due, and in order. -/
structure Punctual (config : TimerConfig) (s : Timers) (events : List (Agenda.Event ℕ)) (p : Ticking) :
    Prop where
  tick : p.timers.tick = s.tick + UInt32.ofNat (events.count .tick)
  /-- Each row is ordered by the time that is left, and equal ones by the order of their starts. -/
  order : ∀ i ≤ config.last, (p.timers.row false i).Pairwise fun t u =>
    remaining p.timers t < remaining p.timers u ∨
      remaining p.timers t = remaining p.timers u ∧ [t, u].Sublist (startOrder s events)
  /-- A timer that is started and then left alone fires at its time, and again if it is periodic. -/
  fires : ∀ before t after, events = before ++ .start t :: after → Agenda.Quiet t after →
    ∀ m, before.count .tick < m → m ≤ events.count .tick →
      let due := before.count .tick + (s.timer t).initTick.toNat
      t ∈ p.firedAt m ↔
        m = due ∨ (s.timer t).periodic = true ∧ due < m ∧ (s.timer t).initTick.toNat ∣ m - due
  /-- A timer that is stopped and then left alone, or that is never started, does not fire. -/
  silent : ∀ before t after, events = before ++ .stop t :: after → Agenda.Quiet t after →
    ∀ m, before.count .tick < m → m ≤ events.count .tick → t ∉ p.firedAt m
  never : ∀ t, Agenda.Quiet t events → ∀ m, 0 < m → m ≤ events.count .tick → t ∉ p.firedAt m
  /-- The next tick calls the timers for which one tick is left, each once and in the order of the
  list. -/
  next : ∃ s', p.timers.tickIncrease config = some (s',
      (p.timers.row false config.last).filter fun t => remaining p.timers t = 1) ∧
    (p.timers.row false config.last).Nodup

variable {config : TimerConfig} {period : ℕ → ℕ} {repeats : ℕ → Bool} {p : Ticking} {a : Agenda ℕ}

section

variable (positive : ∀ t, 0 < period t) (near : ∀ t, period t < 0x7fffffff)
  (keeps : p.timers.Keeps config period repeats a) (ahead : a.Ahead) (firings : p.firings = a.firings)

include positive near keeps ahead firings

theorem keeps_step (e : Agenda.Event ℕ) :
    ∃ p', p.step config e = some p' ∧
      p'.timers.Keeps config period repeats (a.step period repeats e) ∧
      p'.firings = (a.step period repeats e).firings ∧
      p'.timers.tick = p.timers.tick + UInt32.ofNat ([e].count .tick) := by
  cases e with
  | start t => exact ⟨_, rfl, keeps.start (near t), firings, by simp⟩
  | stop t =>
    refine ⟨_, rfl, keeps.stop t, firings, ?_⟩
    rw [Timers.timerStop]
    split_ifs <;> simp
  | tick =>
    obtain ⟨s', increased, kept⟩ := keeps.tickIncrease ahead positive near
    refine ⟨⟨s', p.firings ++ [a.fired]⟩, by rw [step, increased]; rfl, kept, ?_, ?_⟩
    · rw [firings]
      rfl
    · exact Timers.tick_timerCheck increased

theorem keeps_run (events : List (Agenda.Event ℕ)) :
    ∃ p', run (lift (step config)) (some p) events = some p' ∧
      p'.timers.Keeps config period repeats (a.play period repeats events) ∧
      p'.firings = (a.play period repeats events).firings ∧
      p'.timers.tick = p.timers.tick + UInt32.ofNat (events.count .tick) := by
  induction events generalizing p a with
  | nil => exact ⟨p, rfl, keeps, firings, by simp⟩
  | cons e events ih =>
    obtain ⟨q, isQ, keepsQ, firingsQ, tickQ⟩ := keeps_step positive near keeps ahead firings e
    obtain ⟨p', run, kept, fired, tick⟩ := ih keepsQ (ahead.step positive e) firingsQ
    refine ⟨p', ?_, kept, fired, ?_⟩
    · rw [run_cons, lift, Option.bind_some, isQ]
      exact run
    · rw [tick, tickQ, UInt32.add_assoc, ← UInt32.ofNat_add, ← count_append]
      rfl

end

theorem remaining_eq {s : Timers} {t : ℕ} (keeps : s.Keeps config period repeats a)
    (inRow : t ∈ s.row false config.last) : remaining s t = a.due t - a.now := by
  have near := (keeps.window t inRow).2
  have delta := toNat_tick_sub s.tick near (y := 0) (by omega)
  rw [if_pos (Nat.zero_le _), Nat.sub_zero, ← keeps.timeout t inRow] at delta
  rw [remaining, ← delta]
  simp

theorem order_of_keeps {s : Timers} (keeps : s.Keeps config period repeats a) {i : ℕ}
    (inside : i ≤ config.last) :
    (s.row false i).Pairwise fun t u => remaining s t < remaining s u ∨
      remaining s t = remaining s u ∧ [t, u].Sublist a.pending := by
  refine List.Pairwise.sublist (keeps.sublist_last inside) (pairwise_iff_forall_sublist.mpr ?_)
  intro t u pair
  have inRowT : t ∈ s.row false config.last := pair.subset (by simp)
  have inRowU : u ∈ s.row false config.last := pair.subset (by simp)
  have sorted := pairwise_iff_forall_sublist.mp keeps.sorted pair
  have boundT := keeps.window t inRowT
  rw [remaining_eq keeps inRowT, remaining_eq keeps inRowU]
  by_cases same : a.due t = a.due u
  · refine .inr ⟨by rw [same], ?_⟩
    have both : [t, u].filter (fun v => a.due v = a.due u) = [t, u] := by simp [same]
    rw [← both]
    refine (pair.filter _).trans ?_
    rw [keeps.same]
    exact filter_sublist
  · exact .inl (by omega)

/-- For every number of rows, periods of less than half of the tick range and every tick: the timers
fire exactly when they are due, and in order. -/
theorem punctual_of_empty (config : TimerConfig) (s : Timers) (empty : ∀ i, s.row false i = [])
    (hard : ∀ t, (s.timer t).soft = false)
    (bounds : ∀ t, 1 ≤ (s.timer t).initTick ∧ (s.timer t).initTick < halfTickMax)
    (events : List (Agenda.Event ℕ)) :
    ∃ p, run (lift (step config)) (some ⟨s, []⟩) events = some p ∧
      p.Punctual config s events := by
  set period : ℕ → ℕ := fun t => (s.timer t).initTick.toNat with isPeriod
  set repeats : ℕ → Bool := fun t => (s.timer t).periodic with isRepeats
  have positive (t : ℕ) : 0 < period t := UInt32.le_iff_toNat_le.mp (bounds t).1
  have near (t : ℕ) : period t < 0x7fffffff := by
    exact UInt32.lt_iff_toNat_lt.mp (bounds t).2
  have initial : s.Keeps config period repeats .empty := by
    constructor <;> simp [empty, hard, isPeriod, isRepeats, Agenda.empty]
  obtain ⟨p, run, keeps, firings, tick⟩ := keeps_run (p := ⟨s, []⟩) positive near initial
    Agenda.ahead_empty rfl events
  have ahead : (Agenda.empty.play period repeats events).Ahead := Agenda.ahead_empty.play positive events
  have firedAt (m : ℕ) : p.firedAt m = (Agenda.empty.play period repeats events).firedAt m := by
    rw [Ticking.firedAt, firings]
    rfl
  have now (xs : List (Agenda.Event ℕ)) :
      (Agenda.empty.play period repeats xs).now = xs.count .tick := by
    rw [Agenda.now_play]
    exact Nat.zero_add _
  -- the part of the run after a call
  have split (before after : List (Agenda.Event ℕ)) (e : Agenda.Event ℕ)
      (isEvents : events = before ++ e :: after) : Agenda.empty.play period repeats events =
        ((Agenda.empty.play period repeats before).step period repeats e).play period repeats after := by
    rw [isEvents, Agenda.play_append, Agenda.play_cons]
  have aheadAt (before : List (Agenda.Event ℕ)) (e : Agenda.Event ℕ) :
      ((Agenda.empty.play period repeats before).step period repeats e).Ahead :=
    (Agenda.ahead_empty.play positive before).step positive e
  refine ⟨p, run, tick, fun i inside => order_of_keeps keeps inside,
    fun before t after isEvents quiet m later inside => ?_,
    fun before t after isEvents quiet m later inside => ?_, fun t quiet m later inside => ?_, ?_⟩
  · have isSplit := split before after _ isEvents
    have due : ((Agenda.empty.play period repeats before).step period repeats (.start t)).due t =
        before.count .tick + period t := by
      rw [← now before]
      exact Function.update_self ..
    rw [firedAt, isSplit, (aheadAt before (.start t)).mem_firedAt positive quiet
      (by rw [← now before] at later; exact later) (by rwa [← isSplit, now]), due]
    exact and_iff_right (mem_append_right _ mem_cons_self)
  · have isSplit := split before after _ isEvents
    rw [firedAt, isSplit, (aheadAt before (.stop t)).mem_firedAt positive quiet
      (by rw [← now before] at later; exact later) (by rwa [← isSplit, now])]
    exact fun fired => (Agenda.ahead_empty.play positive before).nodup.not_mem_erase fired.1
  · rw [firedAt, Agenda.ahead_empty.mem_firedAt positive quiet later (by rwa [now])]
    simp [Agenda.empty]
  · obtain ⟨s', increased, -⟩ := keeps.tickIncrease ahead positive near
    refine ⟨s', ?_, keeps.nodup⟩
    rw [increased, Agenda.fired, ← keeps.same]
    refine congrArg (fun fired => some (s', fired)) (filter_congr fun t inRow => ?_)
    rw [remaining_eq keeps inRow, decide_eq_decide]
    omega

/-- The tick is about to wrap. -/
def beforeWrap : Timers where
  tick := 0xfffffffe
  randomNr := 0
  timer t := ⟨if t = 1 then 3 else 2, 0, false, t == 1, false⟩
  row _ _ := []

theorem punctual_of_empty_beforeWrap :
    ∃ p, run (lift (step ⟨2, 1, Nat.two_pos⟩)) (some ⟨beforeWrap, []⟩)
        [.start 1, .start 2, .tick, .start 3, .tick, .tick, .tick, .tick, .tick] = some p ∧
      p.Punctual ⟨2, 1, Nat.two_pos⟩ beforeWrap
        [.start 1, .start 2, .tick, .start 3, .tick, .tick, .tick, .tick, .tick] ∧
      p.firings = [[], [2], [1, 3], [], [], [1]] ∧ p.timers.tick = 4 := by
  obtain ⟨p, run, punctual⟩ := punctual_of_empty ⟨2, 1, Nat.two_pos⟩ beforeWrap (fun _ => rfl)
    (fun _ => rfl) (fun t => by simp only [beforeWrap]; split_ifs <;> decide)
    [.start 1, .start 2, .tick, .start 3, .tick, .tick, .tick, .tick, .tick]
  have state : (Run.run (Run.lift (step ⟨2, 1, Nat.two_pos⟩)) (some ⟨beforeWrap, []⟩)
      [.start 1, .start 2, .tick, .start 3, .tick, .tick, .tick, .tick, .tick]).map
      (fun p => (p.firings, p.timers.tick)) = some ([[], [2], [1, 3], [], [], [1]], 4) := by
    decide +kernel
  rw [run, Option.map_some, Option.some.injEq, Prod.mk.injEq] at state
  exact ⟨p, run, punctual, state⟩

end Ticking

end Tm4cPilot.Rtt
