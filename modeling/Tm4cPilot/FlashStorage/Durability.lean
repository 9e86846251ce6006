import Tm4cPilot.FlashStorage.Init

/-!
# Durability across reboots

The buffer survives a reboot as long as nothing is written while the current sector is not in use.
`init` sets `current_sector` only when it finds a full sector: once sector 1 alone is in use, the
next power-on writes into sector 0.
-/

namespace Tm4cPilot.FlashStorage

open Memory Program Function

/-- What power-ons and successful writes reach; `start` and `allowed` restrict them. -/
inductive Run (cfg : Config) (d : ℕ) (start : Flash → Prop) (allowed : State → ℕ → Prop) :
    State → Prop
  | powerOn {f : Flash} {eraseOk : ℕ → Bool} {r : Bool} {s : State} :
      start f → (init cfg d (fresh f eraseOk)).result = some (r, s) → Run cfg d start allowed s
  | reboot {s : State} {eraseOk : ℕ → Bool} {r : Bool} {s' : State} :
      Run cfg d start allowed s → (init cfg d (fresh s.flash eraseOk)).result = some (r, s') →
      Run cfg d start allowed s'
  | write {s : State} {mem : ℕ → UInt8} {offset length : ℕ} {s' : State} :
      Run cfg d start allowed s → offset + length ≤ storageSize →
      (∀ a, ¬ (offset ≤ a ∧ a < offset + length) → mem a = s.memBuffer a) → allowed s length →
      (write cfg d offset length { s with memBuffer := mem }).result = some (true, s') →
      Run cfg d start allowed s'

/-- `init` formats the flash, or finds logs with room. -/
def Startable (cfg : Config) (f : Flash) : Prop :=
  (sectorState f 0 = none ∨ sectorState f 1 = none) ∨
  (∃ st, st ≠ SectorState.available ∧ ∀ i, sectorState f i = some st) ∨
  (∀ i, sectorState f i = some .available) ∨
  ∃ c full old log m, Stored cfg.sectorSize f c full old log m ∧
    (full = true → logEnd sectorHeaderSize log + 66 * (nonZero m chunkOffsets).length ≤
      cfg.sectorSize)

/-- Nothing is written while the current sector is not in use. -/
def WriteInUse (s : State) (length : ℕ) : Prop :=
  length = 0 ∨ sectorState s.flash s.currentSector = some .inUse

/-! ## The invariant -/

/-- The flash stores the buffer, and the driver can write or does not. -/
def Kept (cfg : Config) (s : State) : Prop :=
  (∃ full old log, Ready cfg s full old log s.memBuffer) ∨
  (∃ c log, Stored cfg.sectorSize s.flash c false [] log s.memBuffer ∧ s.currentSector = c + 1) ∨
  ((∀ i, sectorState s.flash i = some .available) ∧ s.memBuffer = fun _ => 0)

section Kept

variable {cfg : Config} {s : State} {full : Bool} {old log : List Record} {m : ℕ → UInt8} {c : Fin 2}
  {d : ℕ} {e : M Bool} {f : Flash} {eraseOk : ℕ → Bool} {E : CallSite × Flash → Prop}

theorem Ready.enough (h : Ready cfg s true old log m) :
    logEnd sectorHeaderSize log + 66 * (nonZero m chunkOffsets).length ≤ cfg.sectorSize := by
  have hroom := h.room rfl
  have hlen := length_nonZero_le m
  simp only [reserveSize, storageSize, blockSize, numBlocks, maxWrite, blockHeaderSize] at hroom
  omega

theorem kept_init_stored (h : Stored cfg.sectorSize f c full old log m) (room : full = true →
    logEnd sectorHeaderSize log + 66 * (nonZero m chunkOffsets).length ≤ cfg.sectorSize) :
    Ends (initWith cfg e d (fresh f eraseOk))
      (fun r s' => r = true ∧ Kept cfg s' ∧ s'.memBuffer = m) (CutOk cfg.sectorSize m m) := by
  cases full with
  | true =>
    refine (ends_initWith_full (s := fresh f eraseOk) h (room rfl)).post ?_
    rintro r s' ⟨rfl, log', h', -, rfl, -⟩
    exact ⟨rfl, .inl ⟨_, _, _, h'⟩, rfl⟩
  | false =>
    obtain rfl := h.empty rfl
    have hother : Holds cfg.sectorSize (f (c + 1)) .available [] := h.other
    rw [ends_initWith_inUse (s := fresh f eraseOk) h.current hother.sectorState]
    refine ⟨rfl, ?_, h.contents⟩
    obtain rfl | rfl : c = 0 ∨ c = 1 := by fin_cases c <;> simp
    · exact .inl ⟨false, [], log, ⟨h.current, h.other, h.empty, rfl⟩, rfl, rfl, by simp, rfl⟩
    · exact .inr (.inl ⟨1, log, ⟨h.current, h.other, h.empty, rfl⟩, rfl⟩)

theorem kept_reboot (h : Kept cfg s) :
    Ends (initWith cfg e d (fresh s.flash eraseOk))
      (fun r s' => r = true ∧ Kept cfg s' ∧ s'.memBuffer = s.memBuffer) (fun _ => True) := by
  rcases h with ⟨full, old, log, h⟩ | ⟨c, log, h, -⟩ | ⟨h, hm⟩
  · refine (kept_init_stored h.stored ?_).mono (fun _ _ => id) fun _ _ => trivial
    rintro rfl
    exact h.enough
  · exact (kept_init_stored h (by simp)).mono (fun _ _ => id) fun _ _ => trivial
  · rw [ends_initWith_available (s := fresh s.flash eraseOk) h, hm]
    exact ⟨rfl, .inr (.inr ⟨h, rfl⟩), rfl⟩

theorem kept_eraseAll (hr : s.reservedSpace = 0) :
    Ends (eraseAll cfg s) (fun r s' => r = true ∧ Kept cfg s') (fun _ => True) := by
  refine (ends_eraseAll hr).mono ?_ fun _ _ => trivial
  rintro r s' ⟨rfl, h', -, hm⟩
  rw [← hm] at h'
  exact ⟨rfl, .inl ⟨_, _, _, h'⟩⟩

theorem kept_powerOn (h : Startable cfg f) :
    Ends (init cfg d (fresh f eraseOk)) (fun r s' => r = true ∧ Kept cfg s') (fun _ => True) := by
  rcases h with h | ⟨st, hst, h⟩ | h | ⟨c, full, old, log, m, h, room⟩
  · rw [init, ends_initWith_bad (s := fresh f eraseOk) h]
    exact kept_eraseAll rfl
  · rw [init, ends_initWith_clash (s := fresh f eraseOk) hst h]
    exact kept_eraseAll rfl
  · rw [init, ends_initWith_available (s := fresh f eraseOk) h]
    exact ⟨rfl, .inr (.inr ⟨h, rfl⟩)⟩
  · refine (kept_init_stored h room).mono ?_ fun _ _ => trivial
    rintro r s' ⟨rfl, h', -⟩
    exact ⟨rfl, h'⟩

theorem ends_write_zero {Q : Bool → State → Prop} {offset : ℕ} :
    Ends (write cfg d offset 0 s) Q E ↔ Q (!s.writeError) s := by
  rw [write, writeWith, ends_bind, ends_state, ends_ite]
  cases s.writeError
  · rw [if_neg (by simp), writeLoop, ends_ite, if_pos rfl, ends_pure, Bool.not_false]
  · rw [if_pos rfl, ends_pure, Bool.not_true]

theorem kept_write (hd : 0 < d) (h : Kept cfg s) {mem : ℕ → UInt8} {offset length : ℕ} {s' : State}
    (hr : offset + length ≤ storageSize)
    (hmem : ∀ a, ¬ (offset ≤ a ∧ a < offset + length) → mem a = s.memBuffer a)
    (hw : WriteInUse s length)
    (hres : (write cfg d offset length { s with memBuffer := mem }).result = some (true, s')) :
    Kept cfg s' := by
  obtain ⟨d, rfl⟩ := Nat.exists_eq_add_of_lt hd
  have idle : length = 0 → Kept cfg s' := by
    rintro rfl
    obtain rfl : mem = s.memBuffer := funext fun a => hmem a (by omega)
    have hends : Ends (write cfg (0 + d + 1) offset 0 s) (fun _ t => t = s) fun _ => True :=
      ends_write_zero.2 rfl
    rw [hends.result hres]
    exact h
  rcases h with ⟨full, old, log, h⟩ | ⟨c, log, h, hc⟩ | ⟨h, -⟩
  · have h' : Ready cfg { s with memBuffer := mem } full old log s.memBuffer :=
      ⟨h.stored, h.offset, h.reserved, h.room, h.noError⟩
    obtain ⟨full', old', log', m', hready, hm, hM, -, hin⟩ := (ends_write _ hr h').result hres
    refine .inl ⟨full', old', log', ?_⟩
    rw [hM]
    convert hready using 1
    funext a
    by_cases ha : offset ≤ a ∧ a < offset + length
    · exact (hin rfl a ha.1 ha.2).symm
    · exact (hm.agree (hmem a ha).symm).symm
  · have hother : Holds cfg.sectorSize (s.flash (c + 1)) .available [] := h.other
    refine idle (hw.resolve_right ?_)
    rw [hc, hother.sectorState]
    simp
  · refine idle (hw.resolve_right ?_)
    rw [h]
    simp

theorem Run.kept (hd : 0 < d) (h : Run cfg d (Startable cfg) WriteInUse s) : Kept cfg s := by
  induction h with
  | powerOn hf hres => exact ((kept_powerOn hf).result hres).2
  | reboot _ hres ih => exact ((kept_reboot ih).result hres).2.1
  | write _ hr hmem hw hres ih => exact kept_write hd ih hr hmem hw hres

end Kept

/-! ## Building runs -/

/-- The smallest sectors. -/
def smallest : Config := ⟨33920, by decide, by decide⟩

@[simp] theorem sectorSize_smallest : smallest.sectorSize = 33920 := rfl

/-- An erased flash. -/
def blank : Flash := fun _ _ => 0xFF

theorem sectorState_blank (i : Fin 2) : sectorState blank i = none := by
  have hread : readBlock (blank i) 0 sectorHeaderSize = [0xFF, 0xFF, 0xFF, 0xFF] := rfl
  rw [sectorState, hread, headerState_erased]

section Runs

variable {cfg : Config} {d : ℕ} {start : Flash → Prop} {allowed : State → ℕ → Prop} {s : State}
  {log : List Record}

theorem ends_init_blank (cfg : Config) (d : ℕ) :
    Ends (init cfg d (fresh blank fun _ => true)) (fun r s => r = true ∧
      Ready cfg s false [] [] s.memBuffer ∧ s.currentSector = 0 ∧ s.memBuffer = fun _ => 0)
      fun _ => True := by
  refine (ends_eraseAll rfl).mono ?_ fun _ _ => trivial
  rintro r s ⟨rfl, h, hc, hm⟩
  exact ⟨rfl, hm ▸ h, hc, hm⟩

theorem chunkRecord_zero_apply {mem m : ℕ → UInt8} (hmem : ∀ a, maxWrite ≤ a → mem a = m a) :
    (chunkRecord mem 0 (by decide) (by decide)).apply m = mem := by
  funext a
  rw [chunkRecord_apply]
  split_ifs with h
  · rfl
  · exact (hmem a (by simp only [maxWrite]; omega)).symm

theorem ends_write_chunk (hs : Ready cfg s false [] log s.memBuffer)
    (room : logEnd sectorHeaderSize log + 66 ≤ cfg.sectorSize) {mem : ℕ → UInt8}
    (hmem : ∀ a, maxWrite ≤ a → mem a = s.memBuffer a) :
    Ends (write cfg d 0 maxWrite { s with memBuffer := mem }) (fun r s' => r = true ∧ ∃ log',
      Ready cfg s' false [] log' s'.memBuffer ∧ s'.memBuffer = mem ∧
      logEnd sectorHeaderSize log' = logEnd sectorHeaderSize log + 66 ∧
      s'.currentSector = s.currentSector) fun _ => True := by
  have hreserved : s.reservedSpace = 0 := hs.reserved
  refine (ends_writeWith_chunk (s := { s with memBuffer := mem }) hs.stored hs.offset hs.noError
    (by decide : 0 % maxWrite = 0) (by decide) (by rw [hreserved]; exact room)).mono ?_
    fun _ _ => trivial
  rintro r s' ⟨rfl, hs', hst⟩
  have hend := logEnd_push_chunk sectorHeaderSize log mem (by decide : 0 % maxWrite = 0) (by decide)
  rw [chunkRecord_zero_apply hmem] at hs'
  refine ⟨rfl, _, ?_, by rw [hst], hend, by rw [hst]⟩
  rw [hst] at hs' ⊢
  exact ⟨hs', by rw [hend, ← hs.offset], hs.reserved, by simp, hs.noError⟩

/-- Writing the first chunk over and over fills sector 0. -/
theorem exists_fill (d : ℕ) {R : State → Prop} (mem : ℕ → UInt8)
    (hmem : ∀ a, maxWrite ≤ a → mem a = 0)
    (first : ∀ s, (init smallest d (fresh blank fun _ => true)).result = some (true, s) → R s)
    (step : ∀ s s', R s → (∀ a, maxWrite ≤ a → mem a = s.memBuffer a) → s'.memBuffer = mem →
      (write smallest d 0 maxWrite { s with memBuffer := mem }).result = some (true, s') → R s')
    {k : ℕ} (hk : k < 513) : ∃ s log, R s ∧ Ready smallest s false [] log s.memBuffer ∧
      logEnd sectorHeaderSize log = sectorHeaderSize + 66 * (k + 1) ∧ s.currentSector = 0 ∧
      s.memBuffer = mem := by
  have one : ∀ s log, R s → Ready smallest s false [] log s.memBuffer → s.currentSector = 0 →
      (∀ a, maxWrite ≤ a → mem a = s.memBuffer a) →
      logEnd sectorHeaderSize log + 66 ≤ smallest.sectorSize →
      ∃ s' log', R s' ∧ Ready smallest s' false [] log' s'.memBuffer ∧
        logEnd sectorHeaderSize log' = logEnd sectorHeaderSize log + 66 ∧ s'.currentSector = 0 ∧
        s'.memBuffer = mem := by
    intro s log h hs hc hm room
    obtain ⟨r, s', hres, ⟨rfl, log', hs', hm', hend, hc'⟩, -⟩ := ends_write_chunk (d := d) hs room hm
    exact ⟨s', log', step s s' h hm hm' hres, hs', hend, hc'.trans hc, hm'⟩
  induction k with
  | zero =>
    obtain ⟨r, s, hres, ⟨rfl, hs, hc, hm⟩, -⟩ := ends_init_blank smallest d
    exact one s [] (first s hres) hs hc (fun a ha => by rw [hmem a ha, hm]) (by
      rw [logEnd_nil, sectorHeaderSize, sectorSize_smallest]
      omega)
  | succ k ih =>
    obtain ⟨s, log, h, hs, hend, hc, hm⟩ := ih (by omega)
    obtain ⟨s', log', h', hs', hend', hc', hm'⟩ := one s log h hs hc (fun a _ => by rw [hm]) (by
      rw [hend, sectorHeaderSize, sectorSize_smallest]
      omega)
    exact ⟨s', log', h', hs', by rw [hend', hend]; omega, hc', hm'⟩

theorem ends_write_switch (hs : Ready cfg s false [] log s.memBuffer)
    (noRoom : cfg.sectorSize < logEnd sectorHeaderSize log + 66) :
    Ends (write cfg d 0 maxWrite s) (fun r s' => r = true ∧ ∃ log',
      Ready cfg s' true log log' s'.memBuffer ∧ s'.memBuffer = s.memBuffer ∧
      logEnd sectorHeaderSize log' = sectorHeaderSize + 66 ∧
      s'.currentSector = s.currentSector + 1) fun _ => True := by
  have hsize := cfg.sectorSize_ge
  have hoffset := hs.offset
  have h₄ := (blockFor_chunk (by decide : 0 % maxWrite = 0) (by decide)).2.2.2.1
  have hroom : Ends (makeRoom cfg (switchFullSector cfg d) s) (fun ok s₁ => ok = true ∧
      Ready cfg s₁ true log [] s.memBuffer ∧ s₁.memBuffer = s.memBuffer ∧
      s₁.currentSector = s.currentSector + 1) (fun _ => True) := by
    simp only [makeRoom, ends_bind, ends_state, ends_ite]
    rw [if_pos (by simp only [blockHeaderSize, maxWrite]; omega)]
    refine (ends_switchSectors hs s.memBuffer).mono ?_ fun _ _ => trivial
    rintro ok s₁ ⟨rfl, h', hM, -, hc⟩
    rw [if_pos rfl, ends_pure]
    exact ⟨rfl, h', hM, hc⟩
  refine ends_writeWith_rule hs.noError (by decide) (by decide) hroom ?_
  rintro s₁ ⟨hready, hM, hc⟩
  have hstart := hready.room_start
  refine (ends_writeRecord hready.stored hready.offset rfl (by decide) (by decide) ?_).mono ?_
    fun _ _ => trivial
  · rw [h₄, blockHeaderSize]
    omega
  · rintro ok s₂ ⟨rfl, hs₂, hst⟩
    have hready₂ : Ready cfg s₂ true log [chunkRecord s₁.memBuffer 0 (by decide) (by decide)]
        ((chunkRecord s₁.memBuffer 0 (by decide) (by decide)).apply s.memBuffer) :=
      hready.record (by decide) hstart hs₂ hst
    have hM₂ : s₂.memBuffer = s₁.memBuffer := by rw [hst]
    rw [chunkRecord_zero_apply fun a _ => congrFun hM a, ← hM₂] at hready₂
    refine ⟨rfl, rfl, _, hready₂, hM₂.trans hM, ?_, ?_⟩
    · rw [← List.nil_append [_], logEnd_push, chunkRecord_size, logEnd_nil]
    · rw [hst]
      exact hc

/-- Whatever the current sector, a write leaves its header and the other sector alone. -/
theorem ends_write_unused {Q : Bool → State → Prop} (hr : s.reservedSpace = 0)
    (he : s.writeError = false) (ho : sectorHeaderSize ≤ s.writeOffset)
    (room : s.writeOffset + 66 ≤ cfg.sectorSize) (h : ∀ s', s'.memBuffer = s.memBuffer →
    s'.flash (s.currentSector + 1) = s.flash (s.currentSector + 1) →
    sectorState s'.flash s.currentSector = sectorState s.flash s.currentSector → Q true s') :
    Ends (write cfg d 0 maxWrite s) Q (fun _ => True) := by
  refine ends_writeWith_rule (P := (· = s)) he (by decide) (by decide) ?_ ?_
  · rw [ends_makeRoom_of_room (by rw [hr]; exact room)]
    exact ⟨rfl, rfl⟩
  · rintro s₁ rfl
    simp only [writeRecord, ends_bind, ends_state, ends_flashWrite, Bool.not_true,
      Bool.false_eq_true, if_false, setSector_flash_self, setSector_setSector, ends_update,
      ends_pure, true_and]
    refine h _ rfl (setSector_flash_of_ne _ (other_ne _) _) ?_
    simp only [sectorState, setSector_flash_self]
    rw [readBlock_updateBlock_out _ _ (.inl (by omega)),
      readBlock_updateBlock_out _ _ (.inl (by omega)),
      readBlock_updateBlock_out _ _ (.inl (by omega))]

theorem exists_run_lost (h : Run cfg d start allowed s)
    (hs : Stored cfg.sectorSize s.flash (s.currentSector + 1) false [] log s.memBuffer)
    (hr : s.reservedSpace = 0) (he : s.writeError = false)
    (ho : s.writeOffset = logEnd sectorHeaderSize log)
    (room : logEnd sectorHeaderSize log + 66 ≤ cfg.sectorSize) (hw : allowed s maxWrite)
    (eraseOk : ℕ → Bool) : ∃ s', Run cfg d start allowed s' ∧
      ∃ s'', (init cfg d (fresh s'.flash eraseOk)).result = some (true, s'') ∧
        s''.memBuffer 0 ≠ s'.memBuffer 0 := by
  have hother : Holds cfg.sectorSize (s.flash s.currentSector) .available [] := by
    have hother := hs.other
    rwa [other_other] at hother
  have hends : Ends (write cfg d 0 maxWrite { s with
      memBuffer := update s.memBuffer 0 (s.memBuffer 0 + 1) }) (fun r s' => r = true ∧
        s'.memBuffer = update s.memBuffer 0 (s.memBuffer 0 + 1) ∧
        s'.flash (s.currentSector + 1) = s.flash (s.currentSector + 1) ∧
        sectorState s'.flash s.currentSector = sectorState s.flash s.currentSector) fun _ => True :=
    ends_write_unused hr he (ho ▸ le_logEnd _ _) (ho ▸ room) fun s' h₁ h₂ h₃ => ⟨rfl, h₁, h₂, h₃⟩
  obtain ⟨r, s', hres, ⟨rfl, hm, hf, hst⟩, -⟩ := hends
  refine ⟨s', h.write (by decide) (fun a ha => update_of_ne ?_ ..) hw hres, ?_⟩
  · rintro rfl
    simp [maxWrite] at ha
  · have hcurrent := hs.current
    rw [← hf] at hcurrent
    rw [hother.sectorState] at hst
    obtain ⟨r, s'', hres', ⟨rfl, hm'⟩, -⟩ := (ends_initWith_inUse (e := eraseAll cfg) (d := d)
      (Q := fun r t => r = true ∧ t.memBuffer = replay log fun _ => 0) (E := fun _ => True)
      (s := fresh s'.flash eraseOk) hcurrent (by rwa [other_other])).2 ⟨rfl, rfl⟩
    refine ⟨s'', hres', ?_⟩
    have hcontents : (replay log fun _ => 0) = s.memBuffer := hs.contents
    rw [hm', hm, hcontents, update_self]
    simp

end Runs

/-- After any run that writes only to a sector in use, a power-on brings the buffer back. -/
theorem init_restores_memBuffer {cfg : Config} {d : ℕ} {s : State} (hd : 0 < d)
    (h : Run cfg d (Startable cfg) WriteInUse s) (eraseOk : ℕ → Bool) :
    ∃ s', (init cfg d (fresh s.flash eraseOk)).result = some (true, s') ∧
      ∀ a < storageSize, s'.memBuffer a = s.memBuffer a := by
  have hends : Ends (init cfg d (fresh s.flash eraseOk)) _ _ := kept_reboot (h.kept hd)
  obtain ⟨r, s', hres, ⟨rfl, -, hmem⟩, -⟩ := hends
  exact ⟨s', hres, fun a _ => by rw [hmem]⟩

/-- A blank flash, a first power-on and a write that changes one byte meet the condition. -/
theorem init_restores_memBuffer_written :
    ∃ s, Run smallest 1 (Startable smallest) WriteInUse s ∧ s.memBuffer 0 = 1 ∧
      ∃ s', (init smallest 1 (fresh s.flash fun _ => true)).result = some (true, s') ∧
        ∀ a < storageSize, s'.memBuffer a = s.memBuffer a := by
  obtain ⟨r, s₀, hres₀, ⟨rfl, hs₀, -, hm₀⟩, -⟩ := ends_init_blank smallest 1
  have hmem : ∀ a, maxWrite ≤ a → (if a = 0 then 1 else 0) = s₀.memBuffer a := by
    intro a ha
    rw [hm₀, if_neg (by simp only [maxWrite] at ha; omega)]
  obtain ⟨r, s, hres, ⟨rfl, -, -, hm, -⟩, -⟩ := ends_write_chunk (d := 1) hs₀ (by
    rw [logEnd_nil, sectorHeaderSize, sectorSize_smallest]
    omega) hmem
  have h : Run smallest 1 (Startable smallest) WriteInUse s :=
    (Run.powerOn (.inl (.inl (sectorState_blank 0))) hres₀).write (by decide)
      (fun a ha => hmem a (by omega)) (.inr hs₀.stored.current.sectorState) hres
  exact ⟨s, h, by rw [hm]; rfl, init_restores_memBuffer (by decide) h _⟩

/-- After sector 0 is full and two reboots, a write that returns true is lost. -/
theorem init_loses_write :
    ∃ s, Run smallest 1 (· = blank) (fun _ _ => True) s ∧
      ∃ s', (init smallest 1 (fresh s.flash fun _ => true)).result = some (true, s') ∧
        s'.memBuffer 0 ≠ s.memBuffer 0 := by
  obtain ⟨s₁, log₁, h₁, hs₁, hend₁, hc₁, -⟩ := exists_fill 1
    (R := Run smallest 1 (· = blank) fun _ _ => True) (fun _ => 0) (fun _ _ => rfl)
    (fun s hres => .powerOn rfl hres) (fun s s' h hm _ hres => h.write (by decide) (fun a ha => hm a
      (by omega)) trivial hres) (by decide : 512 < 513)
  obtain ⟨r, s₂, hres₂, ⟨rfl, log₂, hs₂, -, hend₂, hc₂⟩, -⟩ := ends_write_switch (d := 1) hs₁
    (by rw [hend₁, sectorHeaderSize, sectorSize_smallest]; omega)
  have h₂ := h₁.write (by decide) (fun _ _ => rfl) trivial hres₂
  have hs₂' : Stored smallest.sectorSize s₂.flash 1 true log₁ log₂ s₂.memBuffer := by
    have hc : s₂.currentSector = 1 := by rw [hc₂, hc₁]; rfl
    exact hc ▸ hs₂.stored
  obtain ⟨r, s₃, hres₃, ⟨-, log₃, hs₃, hend₃, hm₃, hc₃⟩, -⟩ := ends_initWith_full (e := eraseAll smallest)
    (d := 1) (s := fresh s₂.flash fun _ => true) hs₂' hs₂.enough
  have h₃ := h₂.reboot hres₃
  have hstored := hs₃.stored
  rw [hc₃] at hstored
  have hother : Holds smallest.sectorSize (s₃.flash (1 + 1)) .available [] := hstored.other
  have hlen := length_nonZero_le s₂.memBuffer
  obtain ⟨r, s₄, hres₄, rfl, -⟩ := (ends_initWith_inUse (e := eraseAll smallest) (d := 1)
    (Q := fun _ s => _ = s) (E := fun _ => True) (s := fresh s₃.flash fun _ => true)
    hstored.current hother.sectorState).2 rfl
  refine exists_run_lost (h₃.reboot hres₄)
    ⟨hstored.current, hstored.other, hstored.empty, rfl⟩ rfl rfl rfl ?_ trivial _
  rw [hend₃, hend₂, sectorHeaderSize, sectorSize_smallest]
  omega

end Tm4cPilot.FlashStorage
