import Tm4cPilot.FlashStorage.Session

/-!
# Power on

What `init` makes of each kind of flash that the driver leaves behind, whatever stands in the place
of `erase_all` when it is not needed.
-/

namespace Tm4cPilot.FlashStorage

open Function Memory Program

section Init

variable {cfg : Config} {s : State} {old log : List Record} {m : ℕ → UInt8} {c : Fin 2} {d : ℕ}
  {e : M Bool} {Q : Bool → State → Prop} {E : CallSite × Flash → Prop}
  {states : Fin 2 → SectorState}

/-! ## Reading the headers -/

/-- The state that `init` reads in the header of a sector. -/
def sectorState (f : Flash) (i : Fin 2) : Option SectorState :=
  headerState (readBlock (f i) 0 sectorHeaderSize)

theorem sectorState_of_header {f : Flash} {i : Fin 2} {st : SectorState}
    (h : readBlock (f i) 0 sectorHeaderSize = headerBytes st) : sectorState f i = some st := by
  rw [sectorState, h, headerState_headerBytes]

theorem Holds.sectorState {S : ℕ} {f : Flash} {i : Fin 2} {st : SectorState} {log : List Record}
    (h : Holds S (f i) st log) : sectorState f i = some st :=
  sectorState_of_header h.header

theorem forall_sector {P : Fin 2 → Prop} (c : Fin 2) (h : P c) (h' : P (c + 1)) (i : Fin 2) :
    P i := by
  fin_cases c <;> fin_cases i <;> assumption

theorem exists_states {f : Flash} {st st' : SectorState} (h : sectorState f c = some st)
    (h' : sectorState f (c + 1) = some st') : ∃ states : Fin 2 → SectorState,
      states c = st ∧ states (c + 1) = st' ∧ ∀ i, sectorState f i = some (states i) := by
  refine ⟨update (fun _ => st') c st, update_self ..,
    update_of_ne (other_ne c) .., forall_sector c ?_ ?_⟩
  · rw [h, update_self]
  · rw [h', update_of_ne (other_ne c)]

theorem ends_initWith_of_states (h : ∀ i, sectorState s.flash i = some (states i)) :
    Ends (initWith cfg e d s) Q E ↔
      Ends (initStates cfg e d states { s with memBuffer := fun _ => 0 }) Q E := by
  have h₀ : headerState (readBlock (s.flash 0) 0 sectorHeaderSize) = some (states 0) := h 0
  have h₁ : headerState (readBlock (s.flash 1) 0 sectorHeaderSize) = some (states 1) := h 1
  have eta : ![states 0, states 1] = states := by
    funext i
    fin_cases i <;> rfl
  simp only [initWith, ends_bind, ends_update, ends_flashRead, Bool.not_true, Bool.false_eq_true,
    if_false, h₀, h₁, eta]

theorem ends_initWith_bad (h : sectorState s.flash 0 = none ∨ sectorState s.flash 1 = none) :
    Ends (initWith cfg e d s) Q E ↔ Ends (e { s with memBuffer := fun _ => 0 }) Q E := by
  simp only [sectorState] at h
  simp only [initWith, ends_bind, ends_update, ends_flashRead, Bool.not_true, Bool.false_eq_true,
    if_false]
  rcases h₀ : headerState (readBlock (s.flash 0) 0 sectorHeaderSize) with _ | st₀
  · rfl
  · rw [h₀] at h
    have h₁ : headerState (readBlock (s.flash 1) 0 sectorHeaderSize) = none := by simpa using h
    simp only [ends_bind, ends_flashRead, Bool.not_true, Bool.false_eq_true, if_false, h₁]

theorem ends_initWith_clash {st : SectorState} (hst : st ≠ .available)
    (h : ∀ i, sectorState s.flash i = some st) :
    Ends (initWith cfg e d s) Q E ↔ Ends (e { s with memBuffer := fun _ => 0 }) Q E := by
  have hfirst : firstSector (fun _ => st) = none := by simp [firstSector, hst]
  rw [ends_initWith_of_states h, initStates, hfirst]

theorem firstSector_inUse (h : states c = .inUse) (h' : states (c + 1) = .available) :
    firstSector states = some c := by
  fin_cases c <;> simp_all [firstSector]

theorem firstSector_full (h : states c = .inUse) (h' : states (c + 1) = .full) :
    firstSector states = some (c + 1) := by
  fin_cases c <;> simp_all [firstSector]

theorem ends_eraseFull_none (h : ∀ i, states i ≠ .full) :
    Ends (eraseFull cfg states [0, 1] s) Q E ↔ Q true s := by
  simp only [eraseFull, if_neg (h 0), if_neg (h 1), ends_pure]

theorem ends_eraseFull_other (h : states c ≠ .full) (h' : states (c + 1) = .full) :
    Ends (eraseFull cfg states [0, 1] s) Q E ↔ Ends (eraseSector cfg (c + 1) s) Q E := by
  have answer : ∀ (ok : Bool) (s' : State) (p : M Bool),
      (Ends (p s') Q E ↔ Q true s') →
      (Ends ((if ok = true then p else pure false) s') Q E ↔ Q ok s') := by
    intro ok s' p hp
    cases ok
    · simp only [Bool.false_eq_true, if_false, ends_pure]
    · rw [if_pos rfl, hp]
  fin_cases c
  · have h₀ : states 0 ≠ .full := h
    have h₁ : states 1 = .full := h'
    simp only [eraseFull, if_neg h₀, if_pos h₁, ends_bind]
    simp only [answer _ _ _ (ends_pure true _)]
    rfl
  · have h₀ : states 0 = .full := h'
    have h₁ : states 1 ≠ .full := h
    simp only [eraseFull, if_pos h₀, if_neg h₁, ends_bind]
    simp only [answer _ _ _ (ends_pure true _)]
    rfl

/-! ## Loading the stored contents -/

/-- With one sector in use, `init` fills the buffer and nothing else. -/
theorem ends_initWith_inUse (h : Holds cfg.sectorSize (s.flash c) .inUse log)
    (h' : sectorState s.flash (c + 1) = some .available) :
    Ends (initWith cfg e d s) Q E ↔ Q true { s with
      memBuffer := replay log fun _ => 0
      writeOffset := logEnd sectorHeaderSize log
      writeError := false
      reservedSpace := 0 } := by
  obtain ⟨states, hc, ho, hstates⟩ := exists_states h.sectorState h'
  have hfull : ∀ i, states i ≠ .full := forall_sector c (by simp [hc]) (by simp [ho])
  rw [ends_initWith_of_states hstates, initStates, firstSector_inUse hc ho]
  simp only [ends_bind, loadSectors, hc, ho, true_or, if_true, reduceCtorEq, or_self, if_false]
  rw [ends_loadSector (s := { s with memBuffer := fun _ => 0 }) h]
  simp only [if_true, ends_pure, Bool.not_true, Bool.false_eq_true, if_false, ends_bind,
    ends_update, compact, if_neg (hfull c), ends_eraseFull_none hfull]

theorem ends_initWith_available (h : ∀ i, sectorState s.flash i = some .available) :
    Ends (initWith cfg e d s) Q E ↔
      Q true { s with memBuffer := fun _ => 0, writeError := false, reservedSpace := 0 } := by
  have hfull : ∀ _ : Fin 2, SectorState.available ≠ .full := by simp
  rw [ends_initWith_of_states h, initStates, firstSector]
  simp only [ne_eq, not_true_eq_false, if_false, if_true, ends_bind, loadSectors, reduceCtorEq,
    or_self, ends_pure, Bool.not_true, Bool.false_eq_true, ends_update, compact,
    ends_eraseFull_none hfull]

/-- With a full sector and room, `init` writes the chunks out and erases the full sector. -/
theorem ends_initWith_full (h : Stored cfg.sectorSize s.flash c true old log m)
    (room : logEnd sectorHeaderSize log + 66 * (nonZero m chunkOffsets).length ≤ cfg.sectorSize) :
    Ends (initWith cfg e d s) (fun ok s' => ok = true ∧ ∃ log', Ready cfg s' false [] log' m ∧
      logEnd sectorHeaderSize log' =
        logEnd sectorHeaderSize log + 66 * (nonZero m chunkOffsets).length ∧
      s'.memBuffer = m ∧ s'.currentSector = c) (CutOk cfg.sectorSize m m) := by
  have hother : Holds cfg.sectorSize (s.flash (c + 1)) .full old := h.other
  obtain ⟨states, hc, ho, hstates⟩ := exists_states h.current.sectorState hother.sectorState
  rw [ends_initWith_of_states hstates, initStates, firstSector_full hc ho]
  simp only [ends_bind, loadSectors, other_other, hc, ho, or_true, true_or, if_true]
  rw [ends_loadSector (s := { s with memBuffer := fun _ => 0 }) hother]
  simp only [if_true, ends_bind]
  rw [ends_loadSector (s := { s with
    memBuffer := replay old fun _ => 0
    writeOffset := logEnd sectorHeaderSize old }) h.current]
  simp only [if_true, ends_pure, Bool.not_true, Bool.false_eq_true, if_false, ends_bind,
    ends_update, compact, ho, other_other, h.contents]
  refine (ends_writeAllFrom (s := { s with
    memBuffer := m
    currentSector := c
    writeOffset := logEnd sectorHeaderSize log
    reservedSpace := 0
    writeError := false }) (fun ofs => mem_chunkOffsets) h rfl rfl rfl room).post ?_
  rintro ok s₁ ⟨rfl, log', hs₁, hlog', hend, hst⟩
  simp only [Bool.not_true, Bool.false_eq_true, if_false, ends_bind]
  rw [ends_eraseFull_other (by simp [hc]) ho]
  refine ends_eraseSector _ _ (.inr (.inl rfl)) fun sec hsec => ?_
  obtain ⟨m', hs', hm'⟩ := hs₁.erase_other h.contents hlog' hsec
  obtain rfl : m' = m := funext fun a => (hm' a).elim id id
  simp only [Bool.not_true, Bool.false_eq_true, if_false, ends_bind, ends_update, ends_pure]
  refine ⟨.of_stored hs' (Mixed.refl _ _), trivial, log ++ log', ?_, hend, ?_, ?_⟩
  · rw [hst]
    exact ⟨hs', rfl, rfl, by simp, rfl⟩
  · rw [hst]
    rfl
  · rw [hst]
    rfl

/-- A cut of `erase_all` leaves a bad header, available sectors or the empty store. -/
theorem ends_eraseAll (hr : s.reservedSpace = 0) :
    Ends (eraseAll cfg s) (fun ok s' => ok = true ∧ Ready cfg s' false [] [] (fun _ => 0) ∧
      s'.currentSector = 0 ∧ s'.memBuffer = fun _ => 0) (fun e => sectorState s.flash 1 = none →
        sectorState e.2 1 = none ∨ (∀ i, sectorState e.2 i = some .available) ∨
          Stored cfg.sectorSize e.2 0 false [] [] fun _ => 0) := by
  have hbad : ∀ sec, sectorState s.flash 1 = none →
      sectorState (update s.flash 0 sec) 1 = none := by
    intro sec h
    exact h
  have herased : ∀ sec (f : Flash), sectorState
      (update f 1 (erased cfg.sectorSize sec)) 1 = none := by
    intro sec f
    rw [sectorState, update_self, readBlock_erased]
    exact headerState_erased
  simp only [eraseAll, ends_bind, ends_update]
  refine ends_eraseSector _ _ (fun h => .inl (hbad _ h)) fun sec₀ h₀ => ⟨fun h => .inl (hbad _ h), ?_⟩
  simp only [Bool.not_true, Bool.false_eq_true, if_false, ends_bind]
  refine ends_eraseSector _ _ (fun _ => .inl (herased _ _)) fun sec₁ h₁ => ?_
  have h₀' : Holds cfg.sectorSize (update (update s.flash 0 sec₀) 1 sec₁ 0)
      .available [] := by
    exact h₀
  have h₁' : Holds cfg.sectorSize (update (update s.flash 0 sec₀) 1 sec₁ 1)
      .available [] := by
    exact h₁
  have hstored : Stored cfg.sectorSize (update (update (update s.flash
      0 sec₀) 1 sec₁) 0 (updateBlock (· &&& ·) (update (update s.flash
        0 sec₀) 1 sec₁ 0) 0 (headerBytes .inUse))) 0 false [] [] fun _ => 0 :=
    { current := by
        exact h₀'.setHeader zipWith_available_inUse
      other := by
        exact h₁'
      empty := fun _ => rfl
      contents := rfl }
  refine ⟨fun _ => .inr (.inl (forall_sector 0 h₀'.sectorState h₁'.sectorState)), ?_⟩
  simp only [Bool.not_true, Bool.false_eq_true, if_false, ends_bind, ends_state, ends_flashWrite]
  exact ⟨fun _ => .inr (.inr hstored), trivial, ⟨hstored, rfl, hr, by simp, rfl⟩, rfl, rfl⟩

end Init

end Tm4cPilot.FlashStorage
