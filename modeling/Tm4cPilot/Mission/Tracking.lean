import Tm4cPilot.Mission.Search

/-!
# How the jump tracking grows

Looking up or counting a jump never lowers a count, and a jump that has an entry, or found the table
full, stays so.
-/

namespace Tm4cPilot.Mission

open List

/-! ## Entries -/

section Entries

variable {e : Track} {es : List Track} {i j : ℕ}

theorem timesRun_found (h : e.index = i) (es : List Track) :
    timesRun (e :: es) i = (e.numTimesRun, e :: es) := if_pos h

theorem timesRun_free (h : e.index = indexNone) (hi : i ≠ indexNone) (es : List Track) :
    timesRun (e :: es) i = (0, ⟨i, 0⟩ :: es) :=
  (if_neg (h.symm ▸ hi.symm)).trans (if_pos h)

theorem timesRun_other (h : e.index ≠ i) (hu : e.index ≠ indexNone) (es : List Track) :
    timesRun (e :: es) i = ((timesRun es i).1, e :: (timesRun es i).2) :=
  (if_neg h).trans (if_neg hu)

theorem incremented_found (h : e.index = i) (es : List Track) :
    incremented (e :: es) i = ⟨i, e.numTimesRun + 1⟩ :: es := if_pos h

theorem incremented_other (h : e.index ≠ i) (hu : e.index ≠ indexNone) (es : List Track) :
    incremented (e :: es) i = e :: incremented es i :=
  (if_neg h).trans (if_neg hu)

/-- Free entries come last. -/
def PackedEntries (es : List Track) : Prop :=
  es.Pairwise fun e e' => e.index = indexNone → e'.index = indexNone

theorem timesRun_nonneg_of_free (h : ∀ e ∈ es, e.index = indexNone) (hj : j ≠ indexNone) :
    0 ≤ (timesRun es j).1 := by
  cases es with
  | nil =>
    show 0 ≤ jumpTimesMax
    decide
  | cons e es => rw [timesRun_free (h e mem_cons_self) hj]

theorem packed_timesRun (h : PackedEntries es) (hi : i ≠ indexNone) :
    PackedEntries (timesRun es i).2 := by
  induction es with
  | nil => exact h
  | cons e es ih =>
    obtain ⟨hhead, htail⟩ := pairwise_cons.1 h
    rw [timesRun]
    split_ifs with heq hfree
    · exact h
    · exact pairwise_cons.2 ⟨fun _ _ h => absurd h hi, htail⟩
    · exact pairwise_cons.2 ⟨fun _ _ h => absurd h hfree, ih htail⟩

theorem packed_incremented (h : PackedEntries es) (hi : i ≠ indexNone) :
    PackedEntries (incremented es i) := by
  induction es with
  | nil => exact h
  | cons e es ih =>
    obtain ⟨hhead, htail⟩ := pairwise_cons.1 h
    rw [incremented]
    split_ifs with heq hfree
    · exact pairwise_cons.2 ⟨fun _ _ h => absurd h hi, htail⟩
    · exact pairwise_cons.2 ⟨fun _ _ h => absurd h hi, htail⟩
    · exact pairwise_cons.2 ⟨fun _ _ h => absurd h hfree, ih htail⟩

/-- A new entry lowers no count. -/
theorem timesRun_le_timesRun (h : PackedEntries es) (hi : i ≠ indexNone) (hj : j ≠ indexNone) :
    (timesRun es j).1 ≤ (timesRun (timesRun es i).2 j).1 := by
  induction es with
  | nil => exact le_rfl
  | cons e es ih =>
    obtain ⟨hhead, htail⟩ := pairwise_cons.1 h
    by_cases heq : e.index = i
    · rw [timesRun_found heq]
    · by_cases hfree : e.index = indexNone
      · rw [timesRun_free hfree hi, timesRun_free hfree hj]
        by_cases hij : i = j
        · rw [timesRun_found hij]
        · rw [timesRun_other hij hi]
          exact timesRun_nonneg_of_free (fun e' he' => hhead e' he' hfree) hj
      · rw [timesRun_other heq hfree]
        by_cases hej : e.index = j
        · rw [timesRun_found hej, timesRun_found hej]
        · rw [timesRun_other hej hfree, timesRun_other hej hfree]
          exact ih htail

theorem ne_free_of_timesRun_snd (h : (timesRun (e :: es) j).2 = e :: es) (hj : j ≠ indexNone) :
    e.index ≠ indexNone := by
  intro hfree
  rw [timesRun_free hfree hj, cons.injEq] at h
  exact hj ((congrArg Track.index h.1).trans hfree)

theorem timesRun_timesRun_snd (h : (timesRun es j).2 = es) (hj : j ≠ indexNone) (i : ℕ) :
    (timesRun (timesRun es i).2 j).2 = (timesRun es i).2 := by
  induction es with
  | nil => rfl
  | cons e es ih =>
    have hfree := ne_free_of_timesRun_snd h hj
    by_cases heq : e.index = i
    · rwa [timesRun_found heq]
    · rw [timesRun_other heq hfree]
      by_cases hej : e.index = j
      · rw [timesRun_found hej]
      · rw [timesRun_other hej hfree, cons.injEq] at h
        rw [timesRun_other hej hfree, ih h.2]

/-- Counting a jump leaves the other counts. -/
theorem timesRun_incremented (h : (timesRun es i).2 = es) (hi : i ≠ indexNone) (j : ℕ) :
    (timesRun es j).1 ≤ (timesRun (incremented es i) j).1 ∧
      (i ≠ j → (timesRun (incremented es i) j).1 = (timesRun es j).1) := by
  induction es with
  | nil => exact ⟨le_rfl, fun _ => rfl⟩
  | cons e es ih =>
    have hfree := ne_free_of_timesRun_snd h hi
    by_cases heq : e.index = i
    · rw [incremented_found heq]
      by_cases hij : i = j
      · rw [timesRun_found (heq.trans hij), timesRun_found hij]
        exact ⟨(lt_add_one _).le, absurd hij⟩
      · rw [timesRun_other (heq.symm ▸ hij) hfree, timesRun_other hij hi]
        exact ⟨le_rfl, fun _ => rfl⟩
    · rw [timesRun_other heq hfree, cons.injEq] at h
      rw [incremented_other heq hfree]
      by_cases hej : e.index = j
      · rw [timesRun_found hej, timesRun_found hej]
        exact ⟨le_rfl, fun _ => rfl⟩
      · rw [timesRun_other hej hfree, timesRun_other hej hfree]
        exact ih h.2

theorem timesRun_incremented_snd (h : (timesRun es i).2 = es) (hi : i ≠ indexNone)
    (hj : (timesRun es j).2 = es) : (timesRun (incremented es i) j).2 = incremented es i := by
  induction es with
  | nil => rfl
  | cons e es ih =>
    have hfree := ne_free_of_timesRun_snd h hi
    by_cases heq : e.index = i
    · rw [incremented_found heq]
      by_cases hij : i = j
      · rw [timesRun_found hij]
      · rw [timesRun_other (heq.symm ▸ hij) hfree, cons.injEq] at hj
        rw [timesRun_other hij hi, hj.2]
    · rw [timesRun_other heq hfree, cons.injEq] at h
      rw [incremented_other heq hfree]
      by_cases hej : e.index = j
      · rw [timesRun_found hej]
      · rw [timesRun_other hej hfree, cons.injEq] at hj
        rw [timesRun_other hej hfree, ih h.2 hj.2]

theorem timesRun_idem (hi : i ≠ indexNone) (es : List Track) :
    (timesRun (timesRun es i).2 i).2 = (timesRun es i).2 := by
  induction es with
  | nil => rfl
  | cons e es ih =>
    by_cases heq : e.index = i
    · rw [timesRun_found heq, timesRun_found heq]
    · by_cases hfree : e.index = indexNone
      · rw [timesRun_free hfree hi, timesRun_found rfl]
      · rw [timesRun_other heq hfree, timesRun_other heq hfree, ih]

end Entries

namespace JumpTracking

variable {tracking a b c : JumpTracking} {i : ℕ}

/-- The table is packed. -/
def Packed (tracking : JumpTracking) : Prop := PackedEntries tracking.entries

/-- A lookup changes nothing. -/
def Known (tracking : JumpTracking) (i : ℕ) : Prop := tracking.noted i = tracking

/-- Counts grow, and what is known stays so. -/
def Grows (a b : JumpTracking) : Prop :=
  ∀ j, j ≠ indexNone → a.times j ≤ b.times j ∧ (a.Known j → b.Known j)

theorem Grows.refl (a : JumpTracking) : a.Grows a := fun _ _ => ⟨le_rfl, id⟩

theorem Grows.trans (h : a.Grows b) (h' : b.Grows c) : a.Grows c := fun j hj =>
  ⟨(h j hj).1.trans (h' j hj).1, (h' j hj).2 ∘ (h j hj).2⟩

theorem known_iff : tracking.Known i ↔ (timesRun tracking.entries i).2 = tracking.entries := by
  rw [Known, noted]
  obtain ⟨es, hes⟩ := tracking
  rw [mk.injEq]

section

variable (hi : i ≠ indexNone)
include hi

theorem packed_noted (h : tracking.Packed) : (tracking.noted i).Packed :=
  packed_timesRun h hi

theorem packed_counted (h : tracking.Packed) : (tracking.counted i).Packed :=
  packed_incremented (packed_noted hi h) hi

theorem grows_noted (h : tracking.Packed) : tracking.Grows (tracking.noted i) := by
  refine fun j hj => ⟨timesRun_le_timesRun h hi hj, fun hknown => ?_⟩
  rw [known_iff] at hknown ⊢
  exact timesRun_timesRun_snd hknown hj i

theorem known_noted (tracking : JumpTracking) : (tracking.noted i).Known i :=
  known_iff.2 (timesRun_idem hi _)

theorem noted_grows_counted (tracking : JumpTracking) :
    (tracking.noted i).Grows (tracking.counted i) := by
  have hknown := known_iff.1 (known_noted hi tracking)
  refine fun j _ => ⟨(timesRun_incremented hknown hi j).1, fun hj => ?_⟩
  rw [known_iff] at hj ⊢
  exact timesRun_incremented_snd hknown hi hj

end

end JumpTracking

theorem packed_initJumpTracking : initJumpTracking.Packed := by
  exact pairwise_replicate.2 (.inr fun h => h)

variable {l : CommandList} {increment : Bool} {i : ℕ} {tracking : JumpTracking}

theorem CommandList.ne_indexNone (hi : i < l.total) : i ≠ indexNone := by
  have := l.small
  rw [indexNone]
  omega

theorem taken_of_grows {a b : JumpTracking} (h : a.Grows b) (hi : i < l.total)
    (ht : l.Taken b i) : l.Taken a i :=
  ht.imp_right ((h i (l.ne_indexNone hi)).1.trans_lt ·)

/-- A jump only adds to the counts. -/
theorem follow_grows (increment : Bool) (h : tracking.Packed) (hi : i < l.total) (hj : l.IsJump i)
    (hv : l.invalidTarget (l.cmdAt i) = false) :
    (follow l increment tracking (l.cmdAt i)).2.Packed ∧
      tracking.Grows (follow l increment tracking (l.cmdAt i)).2 ∧
      (l.numTimes i ≠ -1 → (follow l increment tracking (l.cmdAt i)).2.Known i) := by
  have hne := l.ne_indexNone hi
  by_cases hforever : l.numTimes i = -1
  · rw [follow_of_forever hforever]
    exact ⟨h, .refl _, fun h => absurd hforever h⟩
  · have hnoted : (tracking.noted i).Packed ∧ tracking.Grows (tracking.noted i) ∧
        (l.numTimes i ≠ -1 → (tracking.noted i).Known i) :=
      ⟨JumpTracking.packed_noted hne h, JumpTracking.grows_noted hne h,
        fun _ => JumpTracking.known_noted hne tracking⟩
    rw [follow_of_counted hj hv hforever]
    by_cases hleft : tracking.times i < l.numTimes i
    · cases increment with
      | true =>
        have hgrows := JumpTracking.noted_grows_counted hne tracking
        rw [if_pos hleft, if_pos rfl]
        exact ⟨JumpTracking.packed_counted hne h, hnoted.2.1.trans hgrows,
          fun h => (hgrows i hne).2 (hnoted.2.2 h)⟩
      | false =>
        rw [if_pos hleft, if_neg (by decide)]
        exact hnoted
    · rw [if_neg hleft]
      exact hnoted

theorem returns_grows {v : Search} {r : Option Command × JumpTracking}
    (hr : Loop.Returns (getNextCmdBody l increment) v r) (h : v.tracking.Packed) :
    r.2.Packed ∧ v.tracking.Grows r.2 := by
  refine hr.invariant (I := fun v' => v'.tracking.Packed ∧ v.tracking.Grows v'.tracking)
    (Q := fun r => r.2.Packed ∧ v.tracking.Grows r.2) (fun v' v'' hv hb => ?_)
    (fun v' r hv hb => ?_) ⟨h, .refl _⟩
  · obtain ⟨hlt, hj, hnb, rfl⟩ := getNextCmdBody_inr hb
    simp only [Search.Blocked, not_or] at hnb
    obtain ⟨hpacked, hgrows, -⟩ :=
      follow_grows increment hv.1 hlt hj (eq_false_of_ne_true hnb.2.1)
    exact ⟨hpacked, hv.2.trans hgrows⟩
  · rw [(getNextCmdBody_inl hb).1]
    exact hv

/-- A search only adds to the counts. -/
theorem getNextCmd_grows {r : Option Command × JumpTracking} (h : tracking.Packed)
    (hg : getNextCmd l i increment tracking = r) : r.2.Packed ∧ tracking.Grows r.2 := by
  have hr := returns_getNextCmd l i increment tracking
  rw [hg] at hr
  exact returns_grows hr h

end Tm4cPilot.Mission
