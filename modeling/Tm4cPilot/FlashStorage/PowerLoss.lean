import Tm4cPilot.FlashStorage.Durability

/-!
# Power loss

The power may go at any flash change. What a power-on may find at an address is a set. The contents
survive unless the power goes right after the first header write of `switch_sectors` or after an
erase, something is written while the current sector is not in use, or a full sector is found
without room for the contents.
-/

namespace Tm4cPilot.FlashStorage

open Memory Program Function

/-- The values a power-on may bring back at each address. -/
abbrev Contents := ℕ → UInt8 → Prop

/-- Between two calls, or without power. -/
inductive Power where
  | up (s : State) (may : Contents)
  | down (f : Flash) (may : Contents) (initialised : Bool)

/-- What a condition on a run may depend on. -/
inductive Action where
  | powerOn (f : Flash)
  | write (s : State) (length : ℕ)
  | cut (initialised : Bool) (site : CallSite)

/-- After a write of `mem` that returned `r`. -/
def Contents.written (may : Contents) (offset length : ℕ) (mem : ℕ → UInt8) (r : Bool) : Contents :=
  fun a v => if offset ≤ a ∧ a < offset + length then v = mem a ∨ (r = false ∧ may a v) else may a v

/-- After a write of `mem` that was cut off. -/
def Contents.interrupted (may : Contents) (offset length : ℕ) (mem : ℕ → UInt8) : Contents :=
  fun a v => may a v ∨ ((offset ≤ a ∧ a < offset + length) ∧ v = mem a)

/-- Runs from a flash that was never initialised. -/
inductive PowerRun (cfg : Config) (d : ℕ) (allowed : Action → Prop) : Power → Prop
  | start {f : Flash} : sectorState f 1 = none →
      PowerRun cfg d allowed (.down f (fun _ v => v = 0) false)
  | powerOn {f : Flash} {may : Contents} {i : Bool} {eraseOk : ℕ → Bool} {r : Bool} {s : State} :
      PowerRun cfg d allowed (.down f may i) → allowed (.powerOn f) →
      (init cfg d (fresh f eraseOk)).result = some (r, s) →
      PowerRun cfg d allowed (.up s fun a v => v = s.memBuffer a)
  | powerOnCut {f : Flash} {may : Contents} {i : Bool} {eraseOk : ℕ → Bool}
      {e : CallSite × Flash} :
      PowerRun cfg d allowed (.down f may i) → allowed (.powerOn f) → allowed (.cut i e.1) →
      e ∈ (init cfg d (fresh f eraseOk)).trace → PowerRun cfg d allowed (.down e.2 may i)
  | powerOff {s : State} {may : Contents} :
      PowerRun cfg d allowed (.up s may) → PowerRun cfg d allowed (.down s.flash may true)
  | write {s : State} {may : Contents} {mem : ℕ → UInt8} {offset length : ℕ} {r : Bool}
      {s' : State} : PowerRun cfg d allowed (.up s may) → offset + length ≤ storageSize →
      (∀ a, ¬ (offset ≤ a ∧ a < offset + length) → mem a = s.memBuffer a) →
      allowed (.write s length) →
      (write cfg d offset length { s with memBuffer := mem }).result = some (r, s') →
      PowerRun cfg d allowed (.up s' (may.written offset length mem r))
  | writeCut {s : State} {may : Contents} {mem : ℕ → UInt8} {offset length : ℕ}
      {e : CallSite × Flash} : PowerRun cfg d allowed (.up s may) →
      offset + length ≤ storageSize →
      (∀ a, ¬ (offset ≤ a ∧ a < offset + length) → mem a = s.memBuffer a) →
      allowed (.write s length) → allowed (.cut true e.1) →
      e ∈ (write cfg d offset length { s with memBuffer := mem }).trace →
      PowerRun cfg d allowed (.down e.2 (may.interrupted offset length mem) true)

/-- The step does no harm. -/
def Safe (cfg : Config) : Action → Prop
  | .powerOn f => ∀ c old log m, Stored cfg.sectorSize f c true old log m →
      logEnd sectorHeaderSize log + 66 * (nonZero m chunkOffsets).length ≤ cfg.sectorSize
  | .write s length => WriteInUse s length
  | .cut initialised site => initialised = true → site ≠ .switchInUse ∧ site ≠ .sectorErase

/-! ## The invariant -/

/-- `init` brings allowed contents back. -/
def Recoverable (cfg : Config) (f : Flash) (may : Contents) : Prop :=
  ((∀ i, sectorState f i = some .available) ∧ ∀ a, may a 0) ∨
  ∃ c full old log m, Stored cfg.sectorSize f c full old log m ∧ ∀ a, may a (m a)

/-- `init` is going to format, or was cut off doing so. -/
def Unformatted (cfg : Config) (f : Flash) : Prop :=
  sectorState f 1 = none ∨ (∀ i, sectorState f i = some .available) ∨
    Stored cfg.sectorSize f 0 false [] [] fun _ => 0

/-- The driver has allowed contents and can write or does not. -/
def Running (cfg : Config) (s : State) (may : Contents) : Prop :=
  (∃ full old log m, Ready cfg s full old log m ∧ (∀ a, may a (m a)) ∧ ∀ a, may a (s.memBuffer a)) ∨
  (sectorState s.flash s.currentSector ≠ some .inUse ∧ Recoverable cfg s.flash may)

/-- The invariant of a run. -/
def PowerInv (cfg : Config) : Power → Prop
  | .up s may => Running cfg s may
  | .down f may true => Recoverable cfg f may
  | .down f may false => Unformatted cfg f ∧ ∀ a, may a 0

section Steps

variable {cfg : Config} {d : ℕ} {s : State} {f : Flash} {may : Contents} {eraseOk : ℕ → Bool}

theorem Kept.running (h : Kept cfg s) : Running cfg s fun a v => v = s.memBuffer a := by
  rcases h with ⟨full, old, log, h⟩ | ⟨c, log, h, hc⟩ | ⟨h, hm⟩
  · exact .inl ⟨full, old, log, _, h, fun _ => rfl, fun _ => rfl⟩
  · have hother : Holds cfg.sectorSize (s.flash (c + 1)) .available [] := h.other
    refine .inr ⟨?_, .inr ⟨c, false, [], log, _, h, fun _ => rfl⟩⟩
    rw [hc, hother.sectorState]
    simp
  · refine .inr ⟨?_, .inl ⟨h, fun a => ?_⟩⟩
    · rw [h]
      simp
    · rw [hm]

theorem Running.recoverable (h : Running cfg s may) : Recoverable cfg s.flash may := by
  rcases h with ⟨full, old, log, m, h, hm, -⟩ | ⟨-, h⟩
  · exact .inr ⟨_, full, old, log, m, h.stored, hm⟩
  · exact h

/-- A power-on over a recoverable flash succeeds, and a cut leaves it recoverable. -/
theorem Recoverable.init (h : Recoverable cfg f may) (hsafe : Safe cfg (.powerOn f)) (e : M Bool) :
    Ends (initWith cfg e d (fresh f eraseOk))
      (fun r s' => r = true ∧ Kept cfg s' ∧ ∀ a, may a (s'.memBuffer a))
      (fun e => Safe cfg (.cut true e.1) → Recoverable cfg e.2 may) := by
  rcases h with ⟨h, hm⟩ | ⟨c, full, old, log, m, h, hm⟩
  · rw [ends_initWith_available (s := fresh f eraseOk) h]
    exact ⟨rfl, .inr (.inr ⟨h, rfl⟩), hm⟩
  · refine (kept_init_stored h ?_).mono ?_ ?_
    · rintro rfl
      exact hsafe c old log m h
    · rintro r s' ⟨rfl, h', rfl⟩
      exact ⟨rfl, h', hm⟩
    · rintro e (he | he | ⟨c, full, old, log, m', h', hm'⟩) hcut
      · exact absurd he (hcut rfl).1
      · exact absurd he (hcut rfl).2
      · obtain rfl : m' = m := funext fun a => (hm' a).elim id id
        exact .inr ⟨c, full, old, log, m', h', hm⟩

theorem Unformatted.init (h : Unformatted cfg f) :
    Ends (init cfg d (fresh f eraseOk))
      (fun r s' => r = true ∧ Kept cfg s' ∧ s'.memBuffer = fun _ => 0)
      (fun e => Unformatted cfg e.2) := by
  rcases h with h | h | h
  · rw [FlashStorage.init, ends_initWith_bad (s := fresh f eraseOk) (.inr h)]
    refine (ends_eraseAll rfl).mono ?_ fun e he => he h
    rintro r s' ⟨rfl, h', -, hm⟩
    rw [← hm] at h'
    exact ⟨rfl, .inl ⟨_, _, _, h'⟩, hm⟩
  · rw [FlashStorage.init, ends_initWith_available (s := fresh f eraseOk) h]
    exact ⟨rfl, .inr (.inr ⟨h, rfl⟩), rfl⟩
  · have hother : Holds cfg.sectorSize (f (0 + 1)) .available [] := h.other
    rw [FlashStorage.init, ends_initWith_inUse (s := fresh f eraseOk) h.current hother.sectorState]
    exact ⟨rfl, .inl ⟨false, [], [], h, rfl, rfl, by simp, rfl⟩, rfl⟩

theorem Running.write (hd : 0 < d) (h : Running cfg s may) {mem : ℕ → UInt8} {offset length : ℕ}
    (hr : offset + length ≤ storageSize)
    (hmem : ∀ a, ¬ (offset ≤ a ∧ a < offset + length) → mem a = s.memBuffer a)
    (hw : WriteInUse s length) :
    Ends (FlashStorage.write cfg d offset length { s with memBuffer := mem })
      (fun r s' => Running cfg s' (may.written offset length mem r))
      (fun e => Safe cfg (.cut true e.1) →
        Recoverable cfg e.2 (may.interrupted offset length mem)) := by
  rcases h with ⟨full, old, log, m, h, hm, hM⟩ | ⟨hidle, h⟩
  · obtain ⟨d, rfl⟩ := Nat.exists_eq_add_of_lt hd
    have h' : Ready cfg { s with memBuffer := mem } full old log m :=
      ⟨h.stored, h.offset, h.reserved, h.room, h.noError⟩
    have hout : ∀ a, ¬ (offset ≤ a ∧ a < offset + length) → may a (mem a) := by
      intro a ha
      rw [hmem a ha]
      exact hM a
    refine (ends_write _ hr h').mono ?_ ?_
    · rintro r s' ⟨full', old', log', m', hready, hmix, hM', -, hin⟩
      refine .inl ⟨full', old', log', m', hready, fun a => ?_, fun a => ?_⟩
      · unfold Contents.written
        split_ifs with ha
        · rcases hmix a with h₁ | h₁
          · cases r with
            | true => exact .inl (hin rfl a ha.1 ha.2)
            | false => exact .inr ⟨rfl, h₁ ▸ hm a⟩
          · exact .inl h₁
        · rcases hmix a with h₁ | h₁
          · exact h₁ ▸ hm a
          · exact h₁ ▸ hout a ha
      · unfold Contents.written
        rw [hM']
        split_ifs with ha
        · exact .inl rfl
        · exact hout a ha
    · rintro e (he | he | ⟨c, full', old', log', m', hs', hmix⟩) hcut
      · exact absurd he (hcut rfl).1
      · exact absurd he (hcut rfl).2
      · refine .inr ⟨c, full', old', log', m', hs', fun a => ?_⟩
        rcases hmix a with h₁ | h₁
        · exact .inl (h₁ ▸ hm a)
        · by_cases ha : offset ≤ a ∧ a < offset + length
          · exact .inr ⟨ha, h₁⟩
          · exact .inl (h₁ ▸ hout a ha)
  · obtain rfl : length = 0 := hw.resolve_right hidle
    rw [ends_write_zero]
    refine .inr ⟨hidle, ?_⟩
    have hempty : ∀ r, may.written offset 0 mem r = may := by
      intro r
      funext a v
      exact if_neg (by omega)
    rw [hempty]
    exact h

theorem PowerRun.inv (hd : 0 < d) {p : Power} (h : PowerRun cfg d (Safe cfg) p) : PowerInv cfg p := by
  induction h with
  | start h => exact ⟨.inl h, fun _ => rfl⟩
  | @powerOn f may i _ _ _ _ hsafe hres ih =>
    cases i with
    | true => exact ((Recoverable.init ih hsafe _).result hres).2.1.running
    | false => exact (ih.1.init.result hres).2.1.running
  | @powerOnCut f may i _ _ _ hsafe hcut he ih =>
    cases i with
    | true => exact (Recoverable.init ih hsafe _).trace he hcut
    | false => exact ⟨ih.1.init.trace he, ih.2⟩
  | powerOff _ ih => exact Running.recoverable ih
  | write _ hr hmem hw hres ih => exact (Running.write hd ih hr hmem hw).result hres
  | writeCut _ hr hmem hw hcut he ih => exact (Running.write hd ih hr hmem hw).trace he hcut

end Steps

/-! ## Building cuts -/

section Cuts

variable {cfg : Config} {d : ℕ} {s : State} {log : List Record} {Q : Bool → State → Prop}
  {E : CallSite × Flash → Prop}

theorem safe_powerOn {f : Flash} {i : Fin 2} (h : sectorState f i ≠ some .inUse)
    (h' : sectorState f i ≠ some .full) : Safe cfg (.powerOn f) := by
  intro c old log m hs
  have hother : Holds cfg.sectorSize (f (c + 1)) .full old := hs.other
  have hstates : ∀ j, sectorState f j = some .inUse ∨ sectorState f j = some .full :=
    forall_sector c (.inl hs.current.sectorState) (.inr hother.sectorState)
  rcases hstates i with hi | hi
  · exact absurd hi h
  · exact absurd hi h'

theorem powerRun_start (cfg : Config) (d : ℕ) (allowed : Action → Prop) :
    PowerRun cfg d allowed (.down blank (fun _ v => v = 0) false) :=
  .start (sectorState_blank 1)

theorem written_true {mem m : ℕ → UInt8} (hmem : ∀ a, maxWrite ≤ a → mem a = m a) :
    Contents.written (fun a v => v = m a) 0 maxWrite mem true = fun a v => v = mem a := by
  funext a v
  unfold Contents.written
  split_ifs with ha
  · simp
  · rw [hmem a (by omega)]

/-- What holds of the flash changes of a write holds of those of its parts. -/
theorem ends_parts_of_write (he : s.writeError = false) (h : Ends (write cfg d 0 maxWrite s) Q E) :
    Ends (makeRoom cfg (switchFullSector cfg d) s) (fun ok s₁ => ok = true →
      Ends (writeRecord (blockFor 0 maxWrite) s₁) (fun _ _ => True) E) E := by
  rw [write, writeWith, ends_bind, ends_state, he, ends_ite, if_neg (by simp), writeLoop, ends_ite,
    if_neg (by decide), ends_bind] at h
  refine h.post ?_
  rintro ok s₁ h₁ rfl
  simp only [Bool.not_true, Bool.false_eq_true, if_false, ends_bind] at h₁
  exact h₁.post fun _ _ _ => trivial

theorem exists_cut_writing (hs : Ready cfg s false [] log s.memBuffer)
    (room : logEnd sectorHeaderSize log + 66 ≤ cfg.sectorSize) {mem : ℕ → UInt8}
    (hmem : ∀ a, maxWrite ≤ a → mem a = s.memBuffer a) :
    ∃ e ∈ (write cfg d 0 maxWrite { s with memBuffer := mem }).trace, e.1 = .blockWriting ∧
      sectorState e.2 (s.currentSector + 1) = some .available := by
  refine (ends_write_chunk (d := d) hs room hmem).exists_trace fun h => ?_
  have hreserved : s.reservedSpace = 0 := hs.reserved
  have hother : Holds cfg.sectorSize (s.flash (s.currentSector + 1)) .available [] := hs.stored.other
  have hroom := ends_parts_of_write (s := { s with memBuffer := mem }) hs.noError h
  rw [ends_makeRoom_of_room (by rw [hs.offset, hreserved]; exact room)] at hroom
  have hrecord := hroom rfl
  simp only [writeRecord, ends_bind, ends_state, ends_flashWrite, true_and] at hrecord
  refine hrecord.1 ?_
  rw [sectorState, update_of_ne (other_ne _)]
  exact hother.sectorState

theorem exists_cut_switching (hs : Ready cfg s false [] log s.memBuffer)
    (noRoom : cfg.sectorSize < logEnd sectorHeaderSize log + 66) :
    ∃ e ∈ (write cfg d 0 maxWrite s).trace, ∀ i, sectorState e.2 i = some .inUse := by
  refine (ends_write_switch (d := d) hs noRoom).exists_trace fun h => ?_
  have hsize := cfg.sectorSize_ge
  have hreserved : s.reservedSpace = 0 := hs.reserved
  have hoffset := hs.offset
  have hother : Holds cfg.sectorSize (s.flash (s.currentSector + 1)) .available [] := hs.stored.other
  have hread : SectorHeader.ofBytes (readBlock (s.flash (s.currentSector + 1)) 0 sectorHeaderSize) =
      ⟨SectorState.available.code, signature⟩ := by rw [hother.header, ofBytes_headerBytes]
  have hroom := ends_parts_of_write hs.noError h
  rw [makeRoom, ends_bind, ends_state, ends_ite,
    if_pos (by simp only [blockHeaderSize, maxWrite]; omega)] at hroom
  simp only [switchSectors, ends_bind, ends_state, hreserved, ne_eq, not_true_eq_false, if_false,
    ends_flashRead, Bool.not_true, Bool.false_eq_true, hread, ends_flashWrite] at hroom
  refine hroom.1 (forall_sector s.currentSector ?_ ?_)
  · rw [sectorState, update_of_ne (other_ne _).symm]
    exact hs.stored.current.sectorState
  · have hinUse := hother.setHeader zipWith_available_inUse
    rw [sectorState, update_self]
    exact sectorState_of_header (f := fun _ => _) (i := 0) hinUse.header

end Cuts

/-! ## Recovery -/

/-- The next power-on brings back the last value of each byte, or the old or new one where a write
was cut off. -/
theorem init_recovers_contents {cfg : Config} {d : ℕ} {f : Flash} {may : Contents} {i : Bool}
    (hd : 0 < d) (h : PowerRun cfg d (Safe cfg) (.down f may i)) (hsafe : Safe cfg (.powerOn f))
    (eraseOk : ℕ → Bool) :
    (∃ s', (init cfg d (fresh f eraseOk)).result = some (true, s') ∧
      ∀ a < storageSize, may a (s'.memBuffer a)) ∧
    (i = true → ∀ fallback : M Bool,
      ∃ s', (initWith cfg fallback d (fresh f eraseOk)).result = some (true, s') ∧
        ∀ a < storageSize, may a (s'.memBuffer a)) := by
  cases i with
  | true =>
    have recovers : ∀ fallback : M Bool,
        ∃ s', (initWith cfg fallback d (fresh f eraseOk)).result = some (true, s') ∧
          ∀ a < storageSize, may a (s'.memBuffer a) := by
      intro fallback
      obtain ⟨r, s', hres, ⟨rfl, -, hm⟩, -⟩ := Recoverable.init (d := d) (h.inv hd) hsafe fallback
      exact ⟨s', hres, fun a _ => hm a⟩
    exact ⟨recovers _, fun _ => recovers⟩
  | false =>
    obtain ⟨hf, hmay⟩ := h.inv hd
    obtain ⟨r, s', hres, ⟨rfl, -, hm⟩, -⟩ := hf.init (d := d)
    exact ⟨⟨s', hres, fun a _ => by rw [hm]; exact hmay a⟩, by simp⟩

/-- A write that is cut off after its first flash change meets the condition. -/
theorem init_recovers_contents_cut :
    ∃ f may, PowerRun smallest 1 (Safe smallest) (.down f may true) ∧
      (may 0 0 ∧ may 0 1 ∧ ¬ may 0 2) ∧
      ∀ fallback : M Bool,
        ∃ s', (initWith smallest fallback 1 (fresh f fun _ => true)).result = some (true, s') ∧
          ∀ a < storageSize, may a (s'.memBuffer a) := by
  obtain ⟨r, s₀, hres₀, ⟨rfl, hs₀, hc₀, hm₀⟩, -⟩ := ends_init_blank smallest 1
  have h₀ := (powerRun_start smallest 1 (Safe smallest)).powerOn
    (safe_powerOn (i := 0) (by simp [sectorState_blank]) (by simp [sectorState_blank])) hres₀
  have hmem : ∀ a, maxWrite ≤ a → (if a = 0 then 1 else 0) = s₀.memBuffer a := by
    intro a ha
    rw [hm₀, if_neg (by simp only [maxWrite] at ha; omega)]
  obtain ⟨e, he, hsite, hstate⟩ := exists_cut_writing (d := 1) hs₀ (by
    rw [logEnd_nil, sectorHeaderSize, sectorSize_smallest]
    omega) hmem
  have h := h₀.writeCut (by decide) (fun a ha => hmem a (by omega))
    (.inr hs₀.stored.current.sectorState) (fun _ => by simp [hsite]) he
  refine ⟨e.2, _, h, ?_, (init_recovers_contents (by decide) h ?_ _).2 rfl⟩
  · simp [Contents.interrupted, hm₀, maxWrite]
  · exact safe_powerOn (i := s₀.currentSector + 1) (by simp [hstate]) (by simp [hstate])

/-- Cut right after the first header write of the switch, a power-on erases both sectors. -/
theorem init_erases_contents :
    ∃ f may, PowerRun smallest 1 (fun _ => True) (.down f may true) ∧
      ∃ s', (init smallest 1 (fresh f fun _ => true)).result = some (true, s') ∧
        ¬ may 0 (s'.memBuffer 0) := by
  have step : ∀ s s', PowerRun smallest 1 (fun _ => True) (.up s fun a v => v = s.memBuffer a) →
      (∀ a, maxWrite ≤ a → (if a = 0 then 1 else 0) = s.memBuffer a) →
      (s'.memBuffer = fun a => if a = 0 then 1 else 0) →
      (write smallest 1 0 maxWrite { s with memBuffer := fun a => if a = 0 then 1 else 0 }).result =
        some (true, s') →
      PowerRun smallest 1 (fun _ => True) (.up s' fun a v => v = s'.memBuffer a) := by
    intro s s' h hmem hm hres
    rw [hm, ← written_true hmem]
    exact h.write (by decide) (fun a ha => hmem a (by omega)) trivial hres
  obtain ⟨s, log, h, hs, hend, -, hm⟩ := exists_fill 1 _
    (fun a ha => if_neg (by simp only [maxWrite] at ha; omega))
    (fun s hres => (powerRun_start _ _ _).powerOn trivial hres) step (by decide : 512 < 513)
  obtain ⟨e, he, hstates⟩ := exists_cut_switching (d := 1) hs
    (by rw [hend, sectorHeaderSize, sectorSize_smallest]; omega)
  refine ⟨e.2, _, h.writeCut (by decide) (fun _ _ => rfl) trivial trivial he, ?_⟩
  obtain ⟨r, s', hres, ⟨rfl, -, -, hm'⟩, -⟩ := (ends_initWith_clash (d := 1) (e := eraseAll smallest)
    (s := fresh e.2 fun _ => true) (by decide) hstates).2 (ends_eraseAll rfl)
  refine ⟨s', hres, ?_⟩
  simp [Contents.interrupted, hm', hm]

end Tm4cPilot.FlashStorage
