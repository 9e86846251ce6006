import Tm4cPilot.Mission.Tracking

/-!
# Looking ahead

`get_next_nav_cmd` looks ahead without counting jumps. It agrees with `advance_current_nav_cmd`
unless a taken jump leads to a do command, the search gives up at a jump that the execution passes
later, or there are too many do commands.
-/

namespace Tm4cPilot.Mission

open List JumpTracking CommandList

/-! ## Room in the jump tracking -/

/-- The free entries. -/
def JumpTracking.free (tracking : JumpTracking) : ℕ :=
  tracking.entries.countP (·.index = indexNone)

/-- The DO_JUMP commands. -/
def CommandList.jumps (l : CommandList) : List ℕ := (List.range l.total).filter (l.IsJump ·)

/-- Those without an entry. -/
def CommandList.untracked (l : CommandList) (tracking : JumpTracking) : List ℕ :=
  l.jumps.filter fun i => tracking.entries.all (·.index ≠ i)

/-- Every DO_JUMP command has an entry, or there is a free one. -/
structure Fits (l : CommandList) (tracking : JumpTracking) : Prop where
  packed : tracking.Packed
  room : (l.untracked tracking).length ≤ tracking.free

section Entries

variable {es used : List Track} {i j : ℕ}

theorem PackedEntries.split (h : PackedEntries es) :
    ∃ used rest, es = used ++ rest ∧ (∀ e ∈ used, e.index ≠ indexNone) ∧
      ∀ e ∈ rest, e.index = indexNone := by
  induction es with
  | nil => exact ⟨[], [], rfl, nofun, nofun⟩
  | cons e es ih =>
    obtain ⟨hhead, htail⟩ := pairwise_cons.1 h
    by_cases hfree : e.index = indexNone
    · exact ⟨[], e :: es, rfl, nofun, forall_mem_cons.2 ⟨hfree, fun e' he' =>
        hhead e' he' hfree⟩⟩
    · obtain ⟨used, rest, rfl, hused, hrest⟩ := ih htail
      exact ⟨e :: used, rest, rfl, forall_mem_cons.2 ⟨hfree, hused⟩, hrest⟩

theorem timesRun_append (hused : ∀ e ∈ used, e.index ≠ indexNone) (h : ∀ e ∈ used, e.index ≠ i) :
    timesRun (used ++ es) i = ((timesRun es i).1, used ++ (timesRun es i).2) := by
  induction used with
  | nil => rfl
  | cons e used ih =>
    rw [forall_mem_cons] at hused h
    rw [cons_append, timesRun_other h.1 hused.1, ih hused.2 h.2]
    rfl

theorem timesRun_append_of_mem (hused : ∀ e ∈ used, e.index ≠ indexNone)
    (h : ∃ e ∈ used, e.index = i) :
    timesRun (used ++ es) i = ((timesRun used i).1, used ++ es) := by
  induction used with
  | nil => simp at h
  | cons e used ih =>
    rw [forall_mem_cons] at hused
    by_cases heq : e.index = i
    · rw [cons_append, timesRun_found heq, timesRun_found heq]
    · have h : ∃ e ∈ used, e.index = i := by simpa [heq] using h
      rw [cons_append, timesRun_other heq hused.1, ih hused.2 h, timesRun_other heq hused.1]

theorem index_incremented (h : (timesRun es i).2 = es) (hi : i ≠ indexNone) :
    (incremented es i).map Track.index = es.map Track.index := by
  induction es with
  | nil => rfl
  | cons e es ih =>
    have hfree := ne_free_of_timesRun_snd h hi
    by_cases heq : e.index = i
    · rw [incremented_found heq, map_cons, map_cons, heq]
    · rw [timesRun_other heq hfree, List.cons.injEq] at h
      rw [incremented_other heq hfree, map_cons, map_cons, ih h.2]

theorem timesRun_incremented_self (h : (timesRun es i).2 = es) (hi : i ≠ indexNone)
    (hmem : ∃ e ∈ es, e.index = i) :
    (timesRun (incremented es i) i).1 = (timesRun es i).1 + 1 := by
  induction es with
  | nil => simp at hmem
  | cons e es ih =>
    have hfree := ne_free_of_timesRun_snd h hi
    by_cases heq : e.index = i
    · rw [incremented_found heq, timesRun_found heq, timesRun_found rfl]
    · rw [timesRun_other heq hfree, List.cons.injEq] at h
      rw [incremented_other heq hfree, timesRun_other heq hfree, timesRun_other heq hfree]
      exact ih h.2 (by simpa [heq] using hmem)

end Entries

variable {l : CommandList} {tracking : JumpTracking} {i j : ℕ}

theorem mem_jumps : i ∈ l.jumps ↔ i < l.total ∧ l.IsJump i := by
  simp [jumps]

theorem mem_untracked :
    i ∈ l.untracked tracking ↔ i ∈ l.jumps ∧ ∀ e ∈ tracking.entries, e.index ≠ i := by
  simp [untracked]

theorem jumps_ne_indexNone (hi : i ∈ l.jumps) : i ≠ indexNone := l.ne_indexNone (mem_jumps.1 hi).1

variable {tracking' : JumpTracking}

theorem Fits.congr (h : Fits l tracking) (hpacked : tracking'.Packed)
    (hindex : tracking'.entries.map Track.index = tracking.entries.map Track.index) :
    Fits l tracking' := by
  have hfree : tracking'.free = tracking.free := by
    have hcount : ∀ t : JumpTracking, t.free = (t.entries.map Track.index).countP (· = indexNone) :=
      fun t => by rw [countP_map]; rfl
    rw [hcount, hcount, hindex]
  have huntracked : l.untracked tracking' = l.untracked tracking := by
    have hall : ∀ (t : JumpTracking) (i : ℕ),
        t.entries.all (·.index ≠ i) = (t.entries.map Track.index).all (· ≠ i) :=
      fun t i => by rw [all_map]; rfl
    simp only [untracked, hall, hindex]
  exact ⟨hpacked, hfree.symm ▸ huntracked.symm ▸ h.room⟩

theorem JumpTracking.free_eq {used rest : List Track} (h : tracking.entries = used ++ rest)
    (hused : ∀ e ∈ used, e.index ≠ indexNone) (hrest : ∀ e ∈ rest, e.index = indexNone) :
    tracking.free = rest.length := by
  rw [free, h, countP_append, countP_eq_zero.2 (by simpa using hused), Nat.zero_add]
  exact countP_eq_length.2 (by simpa using hrest)

section

variable (h : Fits l tracking)
include h

theorem Fits.timesRun_untracked (hi : i ∈ l.untracked tracking) :
    ∃ used e rest, tracking.entries = used ++ e :: rest ∧ (∀ e ∈ used, e.index ≠ indexNone) ∧
      (∀ e' ∈ e :: rest, e'.index = indexNone) ∧
      timesRun tracking.entries i = (0, used ++ ⟨i, 0⟩ :: rest) := by
  obtain ⟨used, rest, hes, hused, hrest⟩ := h.packed.split
  obtain ⟨hjump, hne⟩ := mem_untracked.1 hi
  have hroom := h.room
  rw [free_eq hes hused hrest] at hroom
  cases rest with
  | nil => exact absurd (length_pos_of_mem hi) (by simpa using hroom)
  | cons e rest =>
    refine ⟨used, e, rest, hes, hused, hrest, ?_⟩
    rw [hes] at hne ⊢
    rw [timesRun_append hused fun e' he' => hne e' (mem_append_left _ he'),
      timesRun_free (hrest e mem_cons_self) (jumps_ne_indexNone hjump)]

theorem Fits.times_untracked (hi : i ∈ l.untracked tracking) : tracking.times i = 0 := by
  obtain ⟨_, _, _, -, -, -, hrun⟩ := h.timesRun_untracked hi
  exact congrArg Prod.fst hrun

theorem Fits.known_of_mem (hi : i ∈ l.jumps) (hmem : i ∉ l.untracked tracking) :
    tracking.Known i := by
  obtain ⟨used, rest, hes, hused, hrest⟩ := h.packed.split
  obtain ⟨e, he, hindex⟩ : ∃ e ∈ tracking.entries, e.index = i := by
    simpa [mem_untracked, hi] using hmem
  rw [hes] at he
  have he : e ∈ used := (mem_append.1 he).resolve_right fun he =>
    jumps_ne_indexNone hi (hindex ▸ hrest e he)
  rw [known_iff, hes, timesRun_append_of_mem hused ⟨e, he, hindex⟩]

theorem Fits.noted (hi : i ∈ l.jumps) :
    Fits l (tracking.noted i) ∧ (∃ e ∈ (tracking.noted i).entries, e.index = i) ∧
      ∀ j ∈ l.jumps, (tracking.noted i).times j = tracking.times j := by
  by_cases hmem : i ∈ l.untracked tracking
  · obtain ⟨used, e, rest, hes, hused, hrest, hrun⟩ := h.timesRun_untracked hmem
    have hne := jumps_ne_indexNone hi
    have hnoted : (tracking.noted i).entries = used ++ ⟨i, 0⟩ :: rest := congrArg Prod.snd hrun
    have hes' : (tracking.noted i).entries = (used ++ [⟨i, 0⟩]) ++ rest := by
      rw [hnoted, append_assoc]
      rfl
    have hused' : ∀ e ∈ used ++ [⟨i, 0⟩], e.index ≠ indexNone := by
      simpa [or_imp, forall_and, hne] using hused
    have hfits : Fits l (tracking.noted i) := by
      refine ⟨packed_noted hne h.packed, ?_⟩
      have hroom := h.room
      rw [free_eq hes hused hrest, length_cons] at hroom
      rw [free_eq hes' hused' fun e he => hrest e (mem_cons_of_mem _ he)]
      have hless : l.untracked (tracking.noted i) = (l.untracked tracking).filter (· ≠ i) := by
        rw [untracked, untracked, filter_filter, hes, hes']
        refine filter_congr fun x hx => ?_
        have he : e.index ≠ x := fun h =>
          jumps_ne_indexNone hx (h.symm.trans (hrest e mem_cons_self))
        simp [he, Ne.symm, eq_comm, Bool.and_left_comm]
      have := length_filter_lt_length_iff_exists (p := (· ≠ i)).2 ⟨i, hmem, by simp⟩
      rw [hless]
      omega
    refine ⟨hfits, ⟨⟨i, 0⟩, by simp [hnoted], rfl⟩, fun j hj => ?_⟩
    by_cases hentry : ∃ e ∈ used, e.index = j
    · rw [times, times, hnoted, hes,
        timesRun_append_of_mem hused hentry, timesRun_append_of_mem hused hentry]
    · have hother : ∀ e ∈ used, e.index ≠ j := fun e he h => hentry ⟨e, he, h⟩
      have hfree : ∀ e' ∈ e :: rest, e'.index ≠ j := fun e' he' h =>
        jumps_ne_indexNone hj (h ▸ hrest e' he')
      by_cases hij : i = j
      · rw [← hij, h.times_untracked hmem, times, hnoted,
          timesRun_append hused (hij ▸ hother), timesRun_found rfl]
      · rw [h.times_untracked (mem_untracked.2 ⟨hj, hes ▸ forall_mem_append.2 ⟨hother, hfree⟩⟩),
          hfits.times_untracked (mem_untracked.2 ⟨hj, hnoted ▸ forall_mem_append.2 ⟨hother,
            forall_mem_cons.2 ⟨hij, (forall_mem_cons.1 hfree).2⟩⟩⟩)]
  · have hknown : tracking.noted i = tracking := h.known_of_mem hi hmem
    rw [hknown]
    exact ⟨h, by simpa [mem_untracked, hi] using hmem, fun _ _ => rfl⟩

theorem Fits.counted (hi : i ∈ l.jumps) :
    Fits l (tracking.counted i) ∧ (tracking.counted i).times i = tracking.times i + 1 ∧
      ∀ j ∈ l.jumps, i ≠ j → (tracking.counted i).times j = tracking.times j := by
  have hne := jumps_ne_indexNone hi
  have hknown := known_iff.1 (known_noted hne tracking)
  obtain ⟨hfits, hentry, htimes⟩ := h.noted hi
  refine ⟨hfits.congr (packed_counted hne h.packed) (index_incremented hknown hne), ?_,
    fun j hj hij => ?_⟩
  · rw [← htimes i hi]
    exact timesRun_incremented_self hknown hne hentry
  · exact ((timesRun_incremented hknown hne j).2 hij).trans (htimes j hj)

/-- A jump leaves room for the others and changes at most its own count. -/
theorem Fits.follow (hi : i ∈ l.jumps) (hv : l.invalidTarget (l.cmdAt i) = false)
    (increment : Bool) :
    Fits l (follow l increment tracking (l.cmdAt i)).2 ∧
      ∀ j ∈ l.jumps, i ≠ j ∨ increment = false ∨ ¬l.Taken tracking i →
        (Mission.follow l increment tracking (l.cmdAt i)).2.times j = tracking.times j := by
  have hj := (mem_jumps.1 hi).2
  by_cases hforever : l.numTimes i = -1
  · rw [follow_of_forever hforever]
    exact ⟨h, fun _ _ _ => rfl⟩
  · rw [follow_of_counted hj hv hforever]
    by_cases hleft : tracking.times i < l.numTimes i
    · cases increment with
      | true =>
        rw [if_pos hleft, if_pos rfl]
        refine ⟨(h.counted hi).1, fun j hj hcases => (h.counted hi).2.2 j hj ?_⟩
        simpa [CommandList.Taken, hleft] using hcases
      | false =>
        rw [if_pos hleft, if_neg Bool.false_ne_true]
        exact ⟨(h.noted hi).1, fun j hj _ => (h.noted hi).2.2 j hj⟩
    · rw [if_neg hleft]
      exact ⟨(h.noted hi).1, fun j hj _ => (h.noted hi).2.2 j hj⟩

theorem Fits.length_jumps_le : l.jumps.length ≤ 15 := by
  have hnodup : l.jumps.Nodup := nodup_range.filter _
  obtain ⟨used, rest, hes, hused, hrest⟩ := h.packed.split
  have htracked : (l.jumps.filter fun i => !tracking.entries.all (·.index ≠ i)).length ≤
      used.length := by
    rw [← length_map Track.index]
    refine ((hnodup.filter _).subperm fun i hi => ?_).length_le
    simp only [mem_filter, Bool.not_eq_true', all_eq_false, hes] at hi
    obtain ⟨hi, e, he, hindex⟩ := hi
    have hindex : e.index = i := by simpa using hindex
    refine mem_map.2 ⟨e, (mem_append.1 he).resolve_right fun he => ?_, hindex⟩
    exact jumps_ne_indexNone hi (hindex ▸ hrest e he)
  have hsplit := length_eq_length_filter_add (l := l.jumps)
    fun i => tracking.entries.all (·.index ≠ i)
  have hroom := h.room
  have hlength := tracking.length_entries
  rw [free_eq hes hused hrest, untracked] at hroom
  rw [hes, length_append] at hlength
  omega

end

theorem taken_congr (h : tracking'.times i = tracking.times i) :
    l.Taken tracking' i ↔ l.Taken tracking i := by
  rw [CommandList.Taken, CommandList.Taken, h]

theorem Fits.follow_congr (h : Fits l tracking) (h' : Fits l tracking')
    (htimes : ∀ j ∈ l.jumps, tracking'.times j = tracking.times j) (hi : i ∈ l.jumps)
    (hv : l.invalidTarget (l.cmdAt i) = false) (increment : Bool) (hj : j ∈ l.jumps) :
    (Mission.follow l increment tracking' (l.cmdAt i)).2.times j =
      (Mission.follow l increment tracking (l.cmdAt i)).2.times j := by
  by_cases hcase : i ≠ j ∨ increment = false ∨ ¬l.Taken tracking i
  · have hcase' := hcase.imp_right (Or.imp_right (taken_congr (htimes i hi)).not.2)
    rw [(h.follow hi hv increment).2 j hj hcase, (h'.follow hi hv increment).2 j hj hcase',
      htimes j hj]
  · obtain ⟨rfl, rfl, htaken⟩ : i = j ∧ increment = true ∧ l.Taken tracking i := by
      simpa using hcase
    by_cases hforever : l.numTimes i = -1
    · rw [follow_of_forever hforever, follow_of_forever hforever]
      exact htimes i hi
    · have hleft := htaken.resolve_left hforever
      have hleft' := htimes i hi ▸ hleft
      have hjump := (mem_jumps.1 hi).2
      rw [follow_of_counted hjump hv hforever, follow_of_counted hjump hv hforever, if_pos hleft',
        if_pos hleft, if_pos rfl, if_pos rfl, (h'.counted hi).2.1, (h.counted hi).2.1, htimes i hi]

/-! ## Searches -/

theorem Fits.getNextCmd (h : Fits l tracking) (i : ℕ) (increment : Bool) :
    Fits l (getNextCmd l i increment tracking).2 ∧ (increment = false →
      ∀ j ∈ l.jumps, (Mission.getNextCmd l i increment tracking).2.times j = tracking.times j) := by
  refine (returns_getNextCmd l i increment tracking).invariant
    (I := fun v => Fits l v.tracking ∧
      (increment = false → ∀ j ∈ l.jumps, v.tracking.times j = tracking.times j))
    (Q := fun r => Fits l r.2 ∧
      (increment = false → ∀ j ∈ l.jumps, r.2.times j = tracking.times j)) ?_ ?_
    ⟨h, fun _ _ _ => rfl⟩
  · rintro v _ ⟨hfits, hsame⟩ hnext
    obtain ⟨hlt, hj, hnb, rfl⟩ := getNextCmdBody_inr hnext
    simp only [Search.Blocked, not_or] at hnb
    obtain ⟨hfits', htimes⟩ :=
      hfits.follow (mem_jumps.2 ⟨hlt, hj⟩) (eq_false_of_ne_true hnb.2.1) increment
    exact ⟨hfits', fun hinc j hj => (htimes j hj (.inr (.inl hinc))).trans (hsame hinc j hj)⟩
  · intro v r hI hleave
    rwa [(getNextCmdBody_inl hleave).1]

variable {v : Search} {r : Option Command × JumpTracking} {n : ℕ}

theorem getNextCmdBody_inl_congr {increment : Bool}
    (h : getNextCmdBody l increment v = .inl r) (tracking' : JumpTracking) :
    getNextCmdBody l increment { v with tracking := tracking' } = .inl (r.1, tracking') := by
  by_cases hlt : v.cmdIndex < l.total
  · by_cases hj : l.IsJump v.cmdIndex
    · by_cases hb : v.Blocked l increment
      · rw [getNextCmdBody_of_blocked hlt hj hb] at h
        rw [← Sum.inl.inj h]
        exact getNextCmdBody_of_blocked hlt hj hb
      · cases (getNextCmdBody_of_jump hlt hj hb).symm.trans h
    · rw [getNextCmdBody_of_not_isJump hlt hj] at h
      rw [← Sum.inl.inj h]
      exact getNextCmdBody_of_not_isJump hlt hj
  · rw [getNextCmdBody_of_le (not_lt.1 hlt)] at h
    rw [← Sum.inl.inj h]
    exact getNextCmdBody_of_le (not_lt.1 hlt)

theorem returns_congr {increment : Bool}
    (h : Loop.Returns (getNextCmdBody l increment) v r) (hfits : Fits l v.tracking)
    (hfits' : Fits l tracking') (htimes : ∀ j ∈ l.jumps, tracking'.times j = v.tracking.times j) :
    ∃ tracking'', Loop.Returns (getNextCmdBody l increment) { v with tracking := tracking' }
      (r.1, tracking'') := by
  induction h generalizing tracking' with
  | leave hleave => exact ⟨_, .leave (getNextCmdBody_inl_congr hleave tracking')⟩
  | @next v _ r hnext _ ih =>
    obtain ⟨hlt, hj, hnb, rfl⟩ := getNextCmdBody_inr hnext
    have hi := mem_jumps.2 ⟨hlt, hj⟩
    have hvalid := eq_false_of_ne_true (not_or.1 (not_or.1 hnb).2).1
    obtain ⟨tracking'', hreturns⟩ := ih (hfits.follow hi hvalid increment).1
      (hfits'.follow hi hvalid increment).1
      fun j => hfits.follow_congr hfits' htimes hi hvalid increment
    refine ⟨tracking'', .next (getNextCmdBody_of_jump hlt hj hnb) ?_⟩
    have hsame : (follow l increment tracking' (l.cmdAt v.cmdIndex)).1 = _ := follow_fst hj hvalid
    simp only [taken_congr (htimes _ hi)] at hsame
    simpa only [Search.jumped, hsame, follow_fst hj hvalid] using hreturns

/-- What a search finds depends on the counts of the jumps only. -/
theorem getNextCmd_congr (h : Fits l tracking) (h' : Fits l tracking')
    (htimes : ∀ j ∈ l.jumps, tracking'.times j = tracking.times j) (i : ℕ) (increment : Bool) :
    (getNextCmd l i increment tracking').1 = (getNextCmd l i increment tracking).1 := by
  obtain ⟨tracking'', hreturns⟩ :=
    returns_congr (returns_getNextCmd l i increment tracking) h h' htimes
  have hg : getNextCmd l i increment tracking' = (_, tracking'') := getNextCmd_eq hreturns
  rw [hg]

/-- The jumps that a search without counting meets, and what it finds. -/
inductive Chain (l : CommandList) (tracking : JumpTracking) : ℕ → List ℕ → ℕ → Prop
  | found {i : ℕ} (h : i < l.total) (hj : ¬l.IsJump i) : Chain l tracking i [] i
  | jump {i : ℕ} {js : List ℕ} {c : ℕ} (hi : i ∈ l.jumps)
      (hv : l.invalidTarget (l.cmdAt i) = false)
      (hrest : Chain l tracking (if l.Taken tracking i then l.target i else i + 1) js c)
      (hnew : i ∉ js) : Chain l tracking i (i :: js) c

variable {js : List ℕ} {c : ℕ}

theorem Chain.nodup (h : Chain l tracking i js c) : js.Nodup ∧ js ⊆ l.jumps := by
  induction h with
  | found _ _ => exact ⟨.nil, nil_subset _⟩
  | jump hi _ _ hnew ih => exact ⟨ih.1.cons hnew, cons_subset.2 ⟨hi, ih.2⟩⟩

theorem Chain.returns (h : Chain l tracking i js c) (increment : Bool)
    (hv : v.cmdIndex = i) (hfits : Fits l v.tracking)
    (htimes : ∀ j ∈ js, v.tracking.times j = tracking.times j) (hloops : js.length ≤ v.maxLoops)
    (hjump : increment = false → v.jumpIndex ∉ js) :
    ∃ tracking', Loop.Returns (getNextCmdBody l increment) v (some (l.cmdAt c), tracking') ∧
      ((∀ j ∈ js, ¬l.Taken tracking j) →
        ∀ j ∈ l.jumps, tracking'.times j = v.tracking.times j) := by
  induction h generalizing v with
  | found h hj =>
    subst hv
    exact ⟨_, .leave (getNextCmdBody_of_not_isJump h hj), fun _ _ _ => rfl⟩
  | @jump i js c hi hvalid hrest hnew ih =>
    subst hv
    obtain ⟨hlt, hj⟩ := mem_jumps.1 hi
    rw [forall_mem_cons] at htimes
    rw [length_cons] at hloops
    have htaken := taken_congr (l := l) htimes.1
    have hnext : getNextCmdBody l increment v = .inr (v.jumped l increment) := by
      refine getNextCmdBody_of_jump hlt hj ?_
      rintro (hzero | hinvalid | ⟨hinc, heq⟩)
      · omega
      · cases hvalid.symm.trans hinvalid
      · exact hjump hinc (heq ▸ mem_cons_self)
    obtain ⟨hfits', htimes'⟩ := hfits.follow hi hvalid increment
    have hne : ∀ j ∈ js, v.cmdIndex ≠ j := fun j hj h => hnew (h ▸ hj)
    have hindex : (v.jumped l increment).cmdIndex =
        if l.Taken tracking v.cmdIndex then l.target v.cmdIndex else v.cmdIndex + 1 := by
      simp only [Search.jumped, follow_fst hj hvalid, htaken]
    have htimes'' : ∀ j ∈ js, (v.jumped l increment).tracking.times j = tracking.times j :=
      fun j hj => (htimes' j (hrest.nodup.2 hj) (.inl (hne j hj))).trans (htimes.2 j hj)
    have hloops' : js.length ≤ (v.jumped l increment).maxLoops := by
      show js.length ≤ v.maxLoops - 1
      omega
    have hjump' : increment = false → (v.jumped l increment).jumpIndex ∉ js := by
      intro hinc
      simp only [Search.jumped]
      split_ifs
      · exact hnew
      · exact fun hmem => hjump hinc (mem_cons_of_mem _ hmem)
    obtain ⟨tracking', hreturns, hsame⟩ := ih hindex hfits' htimes'' hloops' hjump'
    refine ⟨tracking', .next hnext hreturns, fun hnone j hj => ?_⟩
    rw [forall_mem_cons] at hnone
    exact (hsame hnone.2 j hj).trans (htimes' j hj (.inr (.inr (htaken.not.2 hnone.1))))

/-- Both searches find the end of a chain. -/
theorem Chain.getNextCmd (h : Chain l tracking i js c) (increment : Bool)
    (hfits : Fits l tracking') (htimes : ∀ j ∈ l.jumps, tracking'.times j = tracking.times j) :
    ∃ tracking'', getNextCmd l i increment tracking' = (some (l.cmdAt c), tracking'') ∧
      Fits l tracking'' ∧ (increment = false ∨ (∀ j ∈ js, ¬l.Taken tracking j) →
        ∀ j ∈ l.jumps, tracking''.times j = tracking.times j) := by
  have hlength : js.length ≤ 64 := by
    have := (h.nodup.1.subperm h.nodup.2).length_le
    have := hfits.length_jumps_le
    omega
  obtain ⟨tracking'', hreturns, hsame⟩ := h.returns increment
    (v := .start i tracking') rfl hfits (fun j hj => htimes j (h.nodup.2 hj)) hlength
    (fun _ hmem => jumps_ne_indexNone (h.nodup.2 hmem) rfl)
  have hg := getNextCmd_eq hreturns
  have hfits' := hfits.getNextCmd i increment
  rw [hg] at hfits'
  refine ⟨tracking'', hg, hfits'.1, fun hcases j hj => ?_⟩
  rw [← htimes j hj]
  exact hcases.elim (fun hinc => hfits'.2 hinc j hj) fun hnone => hsame hnone j hj

/-! ## The straight way -/

/-- At most `n` do commands behind used-up jumps, and what both searches find then. -/
inductive Straight (l : CommandList) (tracking : JumpTracking) : ℕ → ℕ → Option ℕ → Prop
  | ends {n i : ℕ} (h : ∀ increment, (getNextCmd l i increment tracking).1 = none) :
      Straight l tracking n i none
  | last {n i : ℕ} {js : List ℕ} {c : ℕ} (h : Chain l tracking i js c)
      (hc : isNavCmd (l.cmdAt c) = true) : Straight l tracking n i (some c)
  | pass {n i : ℕ} {js : List ℕ} {d : ℕ} {e : Option ℕ} (h : Chain l tracking i js d)
      (hd : isNavCmd (l.cmdAt d) = false) (hjs : ∀ j ∈ js, ¬l.Taken tracking j)
      (hrest : Straight l tracking n (d + 1) e) : Straight l tracking (n + 1) i e

/-- At `i` the look-ahead gives up and the execution finds a command, or a do command is found, and
a jump is taken on the way to it or `rest` holds behind it. -/
def strays (l : CommandList) (tracking : JumpTracking) (i : ℕ) (rest : ℕ → Bool) : Bool :=
  match (getNextCmd l i false tracking).1 with
  | none => (getNextCmd l i true tracking).1.isSome
  | some cmd => !isNavCmd cmd &&
      (!decide (i ≤ cmd.index ∧ ∀ j < cmd.index, i ≤ j → ¬l.Taken tracking j) ||
        rest (cmd.index + 1))

/-- The way strays, or there are more than `n` do commands. -/
def astray (l : CommandList) (tracking : JumpTracking) : ℕ → ℕ → Bool
  | 0, i => strays l tracking i fun _ => true
  | n + 1, i => strays l tracking i (astray l tracking n)

variable {e : Option ℕ}

/-- So does the execution. -/
theorem Straight.walk (h : Straight l tracking n i e) (hfits₀ : Fits l tracking) {w : Walk}
    (hw : w.cmdIndex = i) (hnav : w.state.navCmdLoaded = false) (hfits : Fits l w.state.tracking)
    (htimes : ∀ j ∈ l.jumps, w.state.tracking.times j = tracking.times j)
    (hloops : n ≤ w.maxLoops + if w.state.doCmdLoaded then 0 else 1) :
    ∃ s, Loop.Returns (advanceCurrentNavCmdBody l) w (e.isSome, s) ∧
      ∀ c ∈ e, s.navCmd = l.cmdAt c := by
  induction h generalizing w with
  | ends hnone =>
    subst hw
    have hresult := getNextCmd_congr hfits₀ hfits htimes w.cmdIndex true
    rw [hnone true] at hresult
    exact ⟨_, .leave (advanceCurrentNavCmdBody_of_none hnav (Prod.ext hresult rfl)), nofun⟩
  | last h hc =>
    subst hw
    obtain ⟨tracking', hg, -, -⟩ := h.getNextCmd true hfits htimes
    have hnext := advanceCurrentNavCmdBody_of_some hnav hg
    rw [if_pos hc] at hnext
    refine ⟨_, .next hnext (.leave (advanceCurrentNavCmdBody_of_loaded rfl)), ?_⟩
    rintro _ ⟨⟩
    rw [noteDoCmd_navCmd]
    rfl
  | @pass n i js d e h hd hjs _ ih =>
    subst hw
    obtain ⟨tracking', hg, hfits', htimes'⟩ := h.getNextCmd true hfits htimes
    have htimes' := htimes' (.inr hjs)
    have hnext := advanceCurrentNavCmdBody_of_some hnav hg
    rw [if_neg (by simp [hd]), index_cmdAt] at hnext
    cases hdo : w.state.doCmdLoaded with
    | false =>
      rw [if_pos hdo] at hnext
      rw [hdo, if_neg Bool.false_ne_true] at hloops
      obtain ⟨s, hreturns, hcmd⟩ := ih (w := ⟨d + 1, w.maxLoops,
        (w.found (l.cmdAt d) tracking').startDoCmd (l.cmdAt d)⟩) rfl hnav hfits' htimes'
        (by simp [State.startDoCmd, State.emit]; omega)
      exact ⟨s, .next hnext hreturns, hcmd⟩
    | true =>
      rw [hdo, if_pos rfl] at hloops
      rw [if_neg (by simp [hdo]), if_neg (by omega)] at hnext
      obtain ⟨s, hreturns, hcmd⟩ := ih (w := ⟨d + 1, w.maxLoops - 1,
        w.found (l.cmdAt d) tracking'⟩) rfl hnav hfits' htimes'
        (by simp [Walk.found, State.emit, hdo]; omega)
      exact ⟨s, .next hnext hreturns, hcmd⟩

/-- Two jumps that go round. -/
def circle : CommandList :=
  .ofList [⟨16, 0, .zero⟩, ⟨doJump, 0, .jump 3 (-1)⟩, ⟨doJump, 0, .jump 3 (-1)⟩] (by decide)

end Tm4cPilot.Mission
