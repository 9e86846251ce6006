import Tm4cPilot.FlashStorage.Write

/-!
# A power session

What the driver does between two power losses, from a state that is `Ready`. The contents
afterwards, and at every flash change, are a mixture of the contents before and the buffer.
-/

namespace Tm4cPilot.FlashStorage

open List Function Memory Program

theorem replay_cases (log : List Record) (a : ℕ) :
    (∀ m₁ m₂ : ℕ → UInt8, replay log m₁ a = replay log m₂ a) ∨
      ∀ m : ℕ → UInt8, replay log m a = m a := by
  induction log with
  | nil => exact .inr fun _ => rfl
  | cons r log ih =>
    rcases ih with ih | ih
    · exact .inl fun _ _ => ih _ _
    · by_cases h : r.valid = true ∧ r.blockNum * 8 ≤ a ∧ a < r.blockNum * 8 + r.data.length
      · refine .inl fun m₁ m₂ => ?_
        rw [replay_cons, replay_cons, ih, ih, Record.apply, Record.apply, if_pos h.1, if_pos h.1,
          writeBlock_apply_in _ h.2.1 (by omega), writeBlock_apply_in _ h.2.1 (by omega)]
      · refine .inr fun m => ?_
        rw [replay_cons, ih, Record.apply]
        split_ifs with hv
        · exact writeBlock_apply_out _ (by simp only [hv, true_and] at h; omega)
        · rfl

theorem replay_of_storageSize_le (log : List Record) (m : ℕ → UInt8) {a : ℕ}
    (ha : storageSize ≤ a) : replay log m a = m a := by
  induction log generalizing m with
  | nil => rfl
  | cons r log ih =>
    have h₁ := r.inStorage
    have h₂ := r.length_data
    simp only [storageSize, blockSize, numBlocks] at ha
    rw [replay_cons, ih, Record.apply]
    split_ifs
    · exact writeBlock_apply_out _ (.inr (by omega))
    · rfl

theorem mem_chunkOffsets {ofs : ℕ} (h : ofs ∈ chunkOffsets) :
    ofs % maxWrite = 0 ∧ ofs < storageSize := by
  simp only [chunkOffsets, mem_map, mem_range, storageSize, blockSize, numBlocks, maxWrite] at h ⊢
  obtain ⟨i, hi, rfl⟩ := h
  omega

theorem length_nonZero_le (M : ℕ → UInt8) : (nonZero M chunkOffsets).length ≤ 256 :=
  (length_filter_le _ _).trans (by simp [chunkOffsets, storageSize, blockSize, numBlocks,
    maxWrite])

theorem eq_zero_of_not_inChunks {M : ℕ → UInt8} {a : ℕ} (ha : a < storageSize)
    (h : ¬ InChunks (nonZero M chunkOffsets) a) : M a = 0 := by
  simp only [storageSize, blockSize, numBlocks] at ha
  have hmem : a / 64 * 64 ∈ chunkOffsets := by
    simp only [chunkOffsets, mem_map, mem_range, storageSize, blockSize, numBlocks, maxWrite]
    exact ⟨a / 64, by omega, rfl⟩
  have hz : allZero M (a / 64 * 64) maxWrite = true := by
    by_contra hz
    refine h ⟨a / 64 * 64, mem_filter.2 ⟨hmem, by simpa using hz⟩, by omega, by omega⟩
  rw [allZero, all_eq_true] at hz
  have hread : M a ∈ readBlock M (a / 64 * 64) maxWrite := by
    rw [readBlock, mem_map]
    refine ⟨a % 64, by simp only [mem_range, maxWrite]; omega, ?_⟩
    congr 1
    omega
  simpa using hz _ hread

/-- With all non-zero chunks in the current log, the other sector can be erased. -/
theorem Stored.erase_other {S : ℕ} {f : Flash} {c : Fin 2} {full : Bool} {old log log' : List Record}
    {m M m₁ : ℕ → UInt8} (hs : Stored S f c full old (log ++ log') m₁)
    (hm : replay log (replay old fun _ => 0) = m)
    (hlog' : ∀ m₁ a, replay log' m₁ a =
      if InChunks (nonZero M chunkOffsets) a then M a else m₁ a)
    {sec : ℕ → UInt8} (hsec : Holds S sec .available []) :
    ∃ m', Stored S (update f (c + 1) sec) c false [] (log ++ log') m' ∧ Mixed m M m' := by
  refine ⟨replay (log ++ log') fun _ => 0, ?_, ?_⟩
  · exact { current := by rw [update_of_ne (other_ne c).symm]; exact hs.current
            other := by rw [update_self]; exact hsec
            empty := fun _ => rfl
            contents := rfl }
  · intro a
    rw [replay_append, hlog']
    split_ifs with h
    · exact .inr rfl
    · rcases replay_cases log a with hlog | hlog
      · rw [← hm]
        exact .inl (hlog _ _)
      · rw [hlog]
        by_cases ha : a < storageSize
        · exact .inr (eq_zero_of_not_inChunks ha h).symm
        · left
          rw [← hm, hlog, replay_of_storageSize_le _ _ (not_lt.1 ha)]

/-! ## The driver between two power losses -/

/-- The flash stores `m`, with room for the buffer behind a full sector. -/
structure Ready (cfg : Config) (s : State) (full : Bool) (old log : List Record)
    (m : ℕ → UInt8) : Prop where
  stored : Stored cfg.sectorSize s.flash s.currentSector full old log m
  offset : s.writeOffset = logEnd sectorHeaderSize log
  reserved : s.reservedSpace = if full then reserveSize else 0
  room : full = true → logEnd sectorHeaderSize log + reserveSize ≤ cfg.sectorSize
  noError : s.writeError = false

section Session

variable {cfg : Config} {s : State} {full : Bool} {old log : List Record} {m : ℕ → UInt8}
  {offset length : ℕ}

theorem Ready.setEraseOk (h : Ready cfg s full old log m) (g : ℕ → Bool) :
    Ready cfg { s with eraseOk := g } full old log m :=
  ⟨h.stored, h.offset, h.reserved, h.room, h.noError⟩

theorem ends_flashEraseOk {Q : Bool → State → Prop} {E : CallSite × Flash → Prop} (s : State) :
    Ends (flashEraseOk s) Q E ↔ Q (s.eraseOk 0) { s with eraseOk := fun n => s.eraseOk (n + 1) } := by
  simp only [flashEraseOk, ends_bind, ends_state, ends_update, ends_pure]

theorem ends_switchSectors (h : Ready cfg s false old log m) (M : ℕ → UInt8) :
    Ends (switchSectors s) (fun ok s' => ok = true ∧ Ready cfg s' true log [] m ∧
      s'.memBuffer = s.memBuffer ∧ s'.eraseOk = s.eraseOk ∧
      s'.currentSector = s.currentSector + 1) (CutOk cfg.sectorSize m M) := by
  have hsize := cfg.sectorSize_ge
  have hold : old = [] := h.stored.empty rfl
  subst hold
  have hne : s.currentSector ≠ s.currentSector + 1 := (other_ne _).symm
  have hother : Holds cfg.sectorSize (s.flash (s.currentSector + 1)) .available [] := h.stored.other
  have hread : SectorHeader.ofBytes (readBlock (s.flash (s.currentSector + 1)) 0 sectorHeaderSize) =
      ⟨SectorState.available.code, signature⟩ := by rw [hother.header, ofBytes_headerBytes]
  have hinUse := hother.setHeader zipWith_available_inUse
  have hfull := h.stored.current.setHeader zipWith_inUse_full
  have hfinal : Stored cfg.sectorSize (update (update s.flash
      (s.currentSector + 1) (updateBlock (· &&& ·) (s.flash (s.currentSector + 1)) 0
        (headerBytes .inUse))) s.currentSector (updateBlock (· &&& ·) (s.flash s.currentSector) 0
        (headerBytes .full))) (s.currentSector + 1) true log [] m :=
    { current := by rw [update_of_ne hne.symm, update_self]; exact hinUse
      other := by rw [other_other, update_self]; exact hfull
      empty := by simp
      contents := h.stored.contents }
  simp only [switchSectors, ends_bind, ends_state, h.reserved, Bool.false_eq_true, if_false, ne_eq,
    not_true_eq_false, ends_flashRead, Bool.not_true, hread, ends_flashWrite, ends_update,
    ends_pure, true_and, setSector_flash_of_ne _ hne]
  refine ⟨.inl rfl, .of_stored hfinal (Mixed.refl _ _), ?_, rfl, rfl, trivial⟩
  exact
    { stored := hfinal
      offset := rfl
      reserved := rfl
      room := fun _ => by
        simp only [logEnd_nil, sectorHeaderSize, reserveSize, storageSize, blockSize, numBlocks,
          maxWrite, blockHeaderSize]
        omega
      noError := h.noError }

/-- Store a mixture, with room for a block on success. -/
def Compacts (cfg : Config) (sfs : M Bool) : Prop :=
  ∀ s old log m, Ready cfg s true old log m →
    Ends (sfs s) (fun ok s' => ok = true ∧ ∃ log' m', Ready cfg s' true log' [] m' ∧
      Mixed m s.memBuffer m' ∧ s'.memBuffer = s.memBuffer ∧ s'.eraseOk = s.eraseOk)
      (CutOk cfg.sectorSize m s.memBuffer)

/-- The reserve is enough to write out the buffer. -/
theorem compacts_switchFullSector (d : ℕ) : Compacts cfg (switchFullSector cfg (d + 1)) := by
  intro s old log m h
  have hroom := h.room rfl
  have hlen := length_nonZero_le s.memBuffer
  simp only [reserveSize, storageSize, blockSize, numBlocks, maxWrite, blockHeaderSize] at hroom
  have enough : logEnd sectorHeaderSize log + 66 * (nonZero s.memBuffer chunkOffsets).length ≤
      cfg.sectorSize := by omega
  simp only [switchFullSector, switchFullSectorWith, ends_bind, ends_update]
  refine (ends_writeAllFrom (s := { s with writeError := false, reservedSpace := 0 })
    (fun ofs => mem_chunkOffsets) h.stored h.offset rfl rfl enough).post ?_
  rintro ok s₁ ⟨rfl, log', hs₁, hlog', hend, hst⟩
  obtain ⟨hM, hc, he, hr, ho, hok⟩ : s₁.memBuffer = s.memBuffer ∧
      s₁.currentSector = s.currentSector ∧ s₁.writeError = false ∧ s₁.reservedSpace = 0 ∧
      s₁.writeOffset = logEnd sectorHeaderSize (log ++ log') ∧ s₁.eraseOk = s.eraseOk := by
    rw [hst]
    exact ⟨rfl, rfl, rfl, rfl, rfl, rfl⟩
  simp only [Bool.not_true, Bool.false_eq_true, if_false, ends_bind, ends_state, hc]
  refine ends_eraseSector _ _ (.inr (.inl rfl)) fun sec hsec => ?_
  obtain ⟨m', hs', hm'⟩ := hs₁.erase_other h.stored.contents hlog' hsec
  refine ⟨.of_stored hs' hm', ?_⟩
  have ready : Ready cfg (s₁.setSector (s.currentSector + 1) sec) false [] (log ++ log') m' :=
    { stored := by
        change Stored _ _ s₁.currentSector _ _ _ _
        rw [hc]
        exact hs'
      offset := ho
      reserved := hr
      room := by simp
      noError := he }
  refine (ends_switchSectors ready s.memBuffer).mono ?_ fun e he => he.mono hm'
  rintro ok s₂ ⟨rfl, hready, hM₂, hok₂, -⟩
  exact ⟨rfl, _, m', hready, hm', hM₂.trans hM, hok₂.trans hok⟩

theorem Ready.room_start (h : Ready cfg s true old [] m) :
    logEnd sectorHeaderSize ([] : List Record) + (66 + s.reservedSpace) ≤ cfg.sectorSize := by
  have hsize := cfg.sectorSize_ge
  rw [h.reserved, if_pos rfl]
  simp only [logEnd_nil, sectorHeaderSize, reserveSize, storageSize, blockSize, numBlocks, maxWrite,
    blockHeaderSize]
  omega

/-- If the loop goes on there is room for a block; it stops only if erasing is not allowed. -/
theorem ends_makeRoom {sfs : M Bool} (hsfs : Compacts cfg sfs) (h : Ready cfg s full old log m) :
    Ends (makeRoom cfg sfs s) (fun ok s' => ∃ full old log m', Ready cfg s' full old log m' ∧
      Mixed m s.memBuffer m' ∧ s'.memBuffer = s.memBuffer ∧
      ((∀ n, s.eraseOk n = true) → ok = true ∧ ∀ n, s'.eraseOk n = true) ∧
      (ok = true → logEnd sectorHeaderSize log + (66 + s'.reservedSpace) ≤ cfg.sectorSize))
      (CutOk cfg.sectorSize m s.memBuffer) := by
  have hsize := cfg.sectorSize_ge
  simp only [makeRoom, ends_bind, ends_state, ends_ite]
  split_ifs with hfull
  · cases full with
    | false =>
      refine (ends_switchSectors h s.memBuffer).post ?_
      rintro ok s' ⟨rfl, h', hM, hok, -⟩
      rw [if_pos rfl, ends_pure]
      exact ⟨_, _, _, m, h', Mixed.refl _ _, hM, fun hall => ⟨rfl, by rwa [hok]⟩,
        fun _ => h'.room_start⟩
    | true =>
      have hne : s.reservedSpace ≠ 0 := by
        rw [h.reserved, if_pos rfl]
        decide
      have hswitch : ∀ {Q : Bool → State → Prop} {E : CallSite × Flash → Prop},
          Ends (switchSectors s) Q E ↔ Q false s := by
        intro Q E
        simp only [switchSectors, ends_bind, ends_state]
        rw [if_pos hne, ends_pure]
      rw [hswitch, if_neg (by simp), ends_flashEraseOk]
      cases hok : s.eraseOk 0 with
      | false =>
        simp only [Bool.not_false, if_true, ends_pure]
        refine ⟨_, _, _, m, h.setEraseOk _, Mixed.refl _ _, trivial, fun hall => ?_, by simp⟩
        simp [hall 0] at hok
      | true =>
        refine (hsfs _ _ _ _ (h.setEraseOk _)).post ?_
        rintro ok s' ⟨rfl, log', m', h', hm', hM, hok'⟩
        exact ⟨_, _, _, m', h', hm', hM, fun hall => ⟨rfl, fun n => by rw [hok']; exact hall _⟩,
          fun _ => h'.room_start⟩
  · rw [ends_pure]
    refine ⟨_, _, _, m, h, Mixed.refl _ _, rfl, fun hall => ⟨rfl, hall⟩, fun _ => ?_⟩
    rw [h.offset] at hfull
    have hle := h.stored.current.le
    simp only [blockHeaderSize, maxWrite] at hfull
    have hres : s.reservedSpace ≤ 16960 := by
      rw [h.reserved]
      split_ifs <;> decide
    omega

/-- The block starts at or before `offset` and reaches `advance` beyond it. -/
theorem blockFor_spec (hl : 0 < length) (hr : offset + length ≤ storageSize) :
    (blockFor offset length).numBlocksMinusOne < 8 ∧
      (blockFor offset length).blockNum + (blockFor offset length).numBlocksMinusOne < 2048 ∧
      (blockFor offset length).blockOfs ≤ offset ∧
      (blockFor offset length).blockOfs + (blockFor offset length).blockNbytes =
        offset + advance offset length ∧
      (blockFor offset length).blockNbytes ≤ 64 := by
  obtain ⟨n, hn, hpos, hle, h64⟩ : ∃ n, (if length < maxWrite then length else maxWrite) = n ∧
      0 < n ∧ n ≤ length ∧ n ≤ 64 := ⟨_, rfl, by split_ifs <;> simp only [maxWrite] at * <;> omega⟩
  simp only [storageSize, blockSize, numBlocks] at hr
  simp only [advance, blockFor, hn, BlockHeader.blockOfs, BlockHeader.blockNbytes, blockSize,
    numBlocks]
  omega

theorem Ready.record {s' : State} (h : Ready cfg s full old log m) {header : BlockHeader}
    {h₁ : header.numBlocksMinusOne < 8}
    {h₂ : header.blockNum + header.numBlocksMinusOne < 2048} (hb : header.blockNbytes ≤ 64)
    (room : logEnd sectorHeaderSize log + (66 + s.reservedSpace) ≤ cfg.sectorSize)
    (hs : Stored cfg.sectorSize s'.flash s.currentSector full old
      (log ++ [recordOf header h₁ h₂ s.memBuffer]) ((recordOf header h₁ h₂ s.memBuffer).apply m))
    (hst : s' = { s with
      flash := s'.flash
      writeOffset := s.writeOffset + blockHeaderSize + header.blockNbytes }) :
    Ready cfg s' full old (log ++ [recordOf header h₁ h₂ s.memBuffer])
      ((recordOf header h₁ h₂ s.memBuffer).apply m) := by
  have hsz : (recordOf header h₁ h₂ s.memBuffer).size = blockHeaderSize + header.blockNbytes := rfl
  have hreserved : s'.reservedSpace = s.reservedSpace := by rw [hst]
  refine ⟨?_, ?_, ?_, fun hfull => ?_, ?_⟩
  · rw [show s'.currentSector = s.currentSector by rw [hst]]
    exact hs
  · rw [logEnd_push, hsz, ← h.offset, show s'.writeOffset =
      s.writeOffset + blockHeaderSize + header.blockNbytes by rw [hst], Nat.add_assoc]
  · rw [hreserved, h.reserved]
  · rw [h.reserved, if_pos hfull] at room
    rw [logEnd_push, hsz, blockHeaderSize]
    omega
  · rw [show s'.writeError = s.writeError by rw [hst], h.noError]

theorem Ready.ends_writeBlock (h : Ready cfg s full old log m)
    (hl : 0 < length) (hr : offset + length ≤ storageSize)
    (room : logEnd sectorHeaderSize log + (66 + s.reservedSpace) ≤ cfg.sectorSize) :
    Ends (writeRecord (blockFor offset length) s) (fun ok s' => ok = true ∧ ∃ log' m',
      Ready cfg s' full old log' m' ∧ Mixed m s.memBuffer m' ∧ s'.memBuffer = s.memBuffer ∧
      s'.eraseOk = s.eraseOk ∧
      ∀ a, offset ≤ a → a < offset + advance offset length → m' a = s.memBuffer a)
      (CutOk cfg.sectorSize m s.memBuffer) := by
  obtain ⟨h₁, h₂, hofs, hadv, hb⟩ := blockFor_spec hl hr
  refine (ends_writeRecord h.stored h.offset rfl h₁ h₂ (by rw [blockHeaderSize]; omega)).post ?_
  rintro ok s' ⟨rfl, hs', hst⟩
  refine ⟨rfl, _, _, h.record hb room hs' hst, mixed_recordOf h₁ h₂ _, by rw [hst], by rw [hst], ?_⟩
  intro a low high
  rw [recordOf_apply, if_pos ⟨by omega, by omega⟩]

/-- On true the range is stored; false only if erasing is not allowed. -/
theorem ends_writeLoop {sfs : M Bool} (hsfs : Compacts cfg sfs)
    (hr : offset + length ≤ storageSize) (h : Ready cfg s full old log m) :
    Ends (writeLoop cfg sfs offset length s) (fun ok s' => ∃ full old log m',
      Ready cfg s' full old log m' ∧ Mixed m s.memBuffer m' ∧ s'.memBuffer = s.memBuffer ∧
      ((∀ n, s.eraseOk n = true) → ok = true ∧ ∀ n, s'.eraseOk n = true) ∧
      (ok = true → ∀ a, offset ≤ a → a < offset + length → m' a = s.memBuffer a))
      (CutOk cfg.sectorSize m s.memBuffer) := by
  induction length using Nat.strong_induction_on generalizing offset s full old log m with
  | _ length ih =>
    rw [writeLoop, ends_ite]
    split_ifs with hl
    · rw [ends_pure]
      exact ⟨_, _, _, m, h, Mixed.refl _ _, rfl, fun hall => ⟨rfl, hall⟩, fun _ a h₁ h₂ => by omega⟩
    · have hpos := advance_pos offset length
      rw [ends_bind]
      refine (ends_makeRoom hsfs h).post ?_
      rintro ok s₁ ⟨full₁, old₁, log₁, m₁, hready, hm₁, hM₁, hok₁, hroom⟩
      cases ok with
      | false =>
        simp only [Bool.not_false, if_true, ends_pure]
        exact ⟨_, _, _, m₁, hready, hm₁, hM₁, hok₁, by simp⟩
      | true =>
        simp only [Bool.not_true, Bool.false_eq_true, if_false, ends_bind]
        have block := hready.ends_writeBlock (by omega) hr (hroom rfl)
        rw [hM₁] at block
        refine block.mono ?_ fun e he => he.mono hm₁
        rintro ok s₂ ⟨rfl, log₂, m₂, hready₂, hm₂, hM₂, hok₂, hblock⟩
        have hm₂ := hm₁.trans hm₂
        have hok₂ : (∀ n, s.eraseOk n = true) → ∀ n, s₂.eraseOk n = true := by
          rw [hok₂]
          exact fun hall => (hok₁ hall).2
        simp only [Bool.not_true, Bool.false_eq_true, if_false, ends_ite]
        split_ifs with hlast
        · rw [ends_pure]
          exact ⟨_, _, _, m₂, hready₂, hm₂, hM₂, fun hall => ⟨rfl, hok₂ hall⟩,
            fun _ a h₃ h₄ => hblock a h₃ (by omega)⟩
        · have range : offset + advance offset length + (length - advance offset length) ≤
              storageSize := by omega
          have rest := ih (length - advance offset length) (by omega) range hready₂
          rw [hM₂] at rest
          refine rest.mono ?_ fun e he => he.mono hm₂
          rintro ok s₃ ⟨full₃, old₃, log₃, m₃, hready₃, hm₃, hM₃, hok₃, hfin⟩
          refine ⟨_, _, _, m₃, hready₃, hm₂.trans hm₃, hM₃, fun hall => hok₃ (hok₂ hall),
            fun hok a h₃ h₄ => ?_⟩
          by_cases hin : a < offset + advance offset length
          · exact hm₃.agree (hblock a h₃ hin)
          · exact hfin hok a (by omega) (by omega)

theorem ends_write (d : ℕ) (hr : offset + length ≤ storageSize)
    (h : Ready cfg s full old log m) :
    Ends (write cfg (d + 1) offset length s) (fun ok s' => ∃ full old log m',
      Ready cfg s' full old log m' ∧ Mixed m s.memBuffer m' ∧ s'.memBuffer = s.memBuffer ∧
      ((∀ n, s.eraseOk n = true) → ok = true ∧ ∀ n, s'.eraseOk n = true) ∧
      (ok = true → ∀ a, offset ≤ a → a < offset + length → m' a = s.memBuffer a))
      (CutOk cfg.sectorSize m s.memBuffer) := by
  simp only [write, writeWith, ends_bind, ends_state, h.noError, Bool.false_eq_true, if_false]
  exact ends_writeLoop (compacts_switchFullSector d) hr h

end Session

end Tm4cPilot.FlashStorage
