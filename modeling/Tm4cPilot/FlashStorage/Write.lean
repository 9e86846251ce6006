import Tm4cPilot.FlashStorage.Append

/-!
# Writing the buffer to flash

`Stored S f c full old log m` says that sector `c` is in use with `log`, the other one is empty or
full with `old`, and both logs rebuild `m`. A write with buffer `M` leaves a mixture of `m` and `M`,
except at the two places of `CutOk`.
-/

namespace Tm4cPilot.FlashStorage

open Memory Program List Function

/-! ## Stored contents -/

/-- A flash in use, with the buffer `m` that its logs rebuild. -/
structure Stored (S : ℕ) (f : Flash) (c : Fin 2) (full : Bool) (old log : List Record)
    (m : ℕ → UInt8) : Prop where
  current : Holds S (f c) .inUse log
  other : Holds S (f (c + 1)) (if full then .full else .available) old
  empty : full = false → old = []
  contents : replay log (replay old fun _ => 0) = m

/-- Each byte of `m'` is the one of `m` or the one of `M`. -/
def Mixed (m M m' : ℕ → UInt8) : Prop := ∀ a, m' a = m a ∨ m' a = M a

theorem Mixed.refl (m M : ℕ → UInt8) : Mixed m M m := fun _ => .inl rfl

variable {m m' : ℕ → UInt8}

theorem Mixed.trans {M m'' : ℕ → UInt8} (h₁ : Mixed m M m') (h₂ : Mixed m' M m'') :
    Mixed m M m'' := by
  intro a
  rcases h₂ a with h | h
  · rw [h]
    exact h₁ a
  · exact .inr h

theorem Mixed.agree {M : ℕ → UInt8} (h : Mixed m M m') {a : ℕ} (ha : m a = M a) : m' a = M a := by
  rcases h a with h | h
  · rw [h, ha]
  · exact h

/-- But for two places, the flash stores a mixture. -/
def CutOk (S : ℕ) (m M : ℕ → UInt8) (e : CallSite × Flash) : Prop :=
  e.1 = .switchInUse ∨ e.1 = .sectorErase ∨
    ∃ c full old log m', Stored S e.2 c full old log m' ∧ Mixed m M m'

variable {S : ℕ}

theorem CutOk.of_stored {M : ℕ → UInt8} {site : CallSite} {f : Flash} {c : Fin 2} {full : Bool}
    {old log : List Record} (hs : Stored S f c full old log m') (hm : Mixed m M m') :
    CutOk S m M (site, f) :=
  .inr (.inr ⟨c, full, old, log, m', hs, hm⟩)

theorem CutOk.mono {M : ℕ → UInt8} {e : CallSite × Flash} (h : CutOk S m' M e) (hm : Mixed m M m') :
    CutOk S m M e := by
  rcases h with h | h | ⟨c, full, old, log, m'', hs, h⟩
  · exact .inl h
  · exact .inr (.inl h)
  · exact .inr (.inr ⟨c, full, old, log, m'', hs, hm.trans h⟩)

theorem Stored.push {f : Flash} {c : Fin 2} {full : Bool} {old log : List Record}
    (h : Stored S f c full old log m) {sec : ℕ → UInt8} {r : Record}
    (hs : Holds S sec .inUse (log ++ [r])) :
    Stored S (update f c sec) c full old (log ++ [r]) (r.apply m) where
  current := by rwa [update_self]
  other := by
    rw [update_of_ne (other_ne c)]
    exact h.other
  empty := h.empty
  contents := by rw [replay_append, h.contents, replay_cons, replay_nil]

section Record

variable {S : ℕ} {s : State} {full : Bool} {old log : List Record} {m : ℕ → UInt8}
  {header : BlockHeader}

theorem mixed_recordOf (h₁ : header.numBlocksMinusOne < 8)
    (h₂ : header.blockNum + header.numBlocksMinusOne < 2048) (M : ℕ → UInt8) :
    Mixed m M ((recordOf header h₁ h₂ M).apply m) := by
  intro a
  rw [recordOf_apply]
  split_ifs
  · exact .inr rfl
  · exact .inl rfl

/-- Appending a record stores its block, and a cut leaves the contents as they were. -/
theorem ends_writeRecord (hs : Stored S s.flash s.currentSector full old log m)
    (ho : s.writeOffset = logEnd sectorHeaderSize log)
    (hw : header.state = BlockHeader.stateWriting) (h₁ : header.numBlocksMinusOne < 8)
    (h₂ : header.blockNum + header.numBlocksMinusOne < 2048)
    (room : logEnd sectorHeaderSize log + (blockHeaderSize + header.blockNbytes) ≤ S) :
    Ends (writeRecord header s) (fun ok s' => ok = true ∧
      Stored S s'.flash s.currentSector full old (log ++ [recordOf header h₁ h₂ s.memBuffer])
        ((recordOf header h₁ h₂ s.memBuffer).apply m) ∧
      s' = { s with
        flash := s'.flash
        writeOffset := s.writeOffset + blockHeaderSize + header.blockNbytes })
      (CutOk S m s.memBuffer) := by
  obtain ⟨state, bn, nm1⟩ := header
  subst hw
  simp only [writeRecord, ends_bind, ends_state, ends_flashWrite, Bool.not_true, Bool.false_eq_true,
    if_false, setSector_flash_self, setSector_setSector, update_setSector, ends_update, ends_pure]
  have hroom : logEnd sectorHeaderSize log + (recordOf _ h₁ h₂ s.memBuffer).size ≤ S := room
  have writing := hs.push (hs.current.appendWriting (recordOf _ h₁ h₂ s.memBuffer) hroom)
  have data := hs.push (hs.current.appendData (recordOf _ h₁ h₂ s.memBuffer) hroom)
  have valid := hs.push (hs.current.appendValid (recordOf _ h₁ h₂ s.memBuffer) hroom rfl)
  rw [ho]
  refine ⟨.of_stored writing (Mixed.refl _ _), .of_stored data (Mixed.refl _ _),
    .of_stored valid (mixed_recordOf h₁ h₂ _), trivial, valid, ?_⟩
  simp only [State.setSector, ho]

end Record

/-! ## Writing out all of the buffer -/

section WriteAll

variable {cfg : Config} {s : State} {full : Bool} {old log : List Record} {m : ℕ → UInt8}
  {Q : Bool → State → Prop} {E : CallSite × Flash → Prop} {sfs : M Bool}

theorem ends_makeRoom_of_room
    (room : s.writeOffset + (blockHeaderSize + maxWrite + s.reservedSpace) ≤ cfg.sectorSize) :
    Ends (makeRoom cfg sfs s) Q E ↔ Q true s := by
  simp only [makeRoom, ends_bind, ends_state, ends_ite]
  rw [if_neg (by omega), ends_pure]

variable {ofs : ℕ}

theorem blockFor_chunk (hm : ofs % maxWrite = 0) (hlt : ofs < storageSize) :
    (blockFor ofs maxWrite).numBlocksMinusOne = 7 ∧ (blockFor ofs maxWrite).blockNum = ofs / 8 ∧
      (blockFor ofs maxWrite).blockOfs = ofs ∧ (blockFor ofs maxWrite).blockNbytes = 64 ∧
      advance ofs maxWrite = 64 := by
  simp only [maxWrite, storageSize, blockSize, numBlocks] at hm hlt
  simp only [advance, blockFor, BlockHeader.blockOfs, BlockHeader.blockNbytes, blockSize, numBlocks,
    maxWrite, lt_self_iff_false, if_false]
  refine ⟨trivial, ?_, ?_, trivial, ?_⟩ <;> omega

theorem blockFor_chunk_fits (hm : ofs % maxWrite = 0) (hlt : ofs < storageSize) :
    (blockFor ofs maxWrite).numBlocksMinusOne < 8 ∧ (blockFor ofs maxWrite).blockNum +
      (blockFor ofs maxWrite).numBlocksMinusOne < 2048 := by
  obtain ⟨h₁, h₂, -⟩ := blockFor_chunk hm hlt
  rw [h₁, h₂]
  simp only [maxWrite, storageSize, blockSize, numBlocks] at hm hlt
  omega

/-- The chunk record that `write_all` appends. -/
def chunkRecord (M : ℕ → UInt8) (ofs : ℕ) (hm : ofs % maxWrite = 0) (hlt : ofs < storageSize) :
    Record :=
  recordOf (blockFor ofs maxWrite) (blockFor_chunk_fits hm hlt).1 (blockFor_chunk_fits hm hlt).2 M

theorem chunkRecord_size (M : ℕ → UInt8) (hm : ofs % maxWrite = 0) (hlt : ofs < storageSize) :
    (chunkRecord M ofs hm hlt).size = 66 := by
  change blockHeaderSize + ((blockFor ofs maxWrite).numBlocksMinusOne + 1) * 8 = 66
  rw [(blockFor_chunk hm hlt).1, blockHeaderSize]

theorem chunkRecord_apply (M m : ℕ → UInt8) (hm : ofs % maxWrite = 0) (hlt : ofs < storageSize)
    (a : ℕ) :
    (chunkRecord M ofs hm hlt).apply m a = if ofs ≤ a ∧ a < ofs + 64 then M a else m a := by
  obtain ⟨-, -, h₁, h₂, -⟩ := blockFor_chunk hm hlt
  rw [chunkRecord, recordOf_apply, h₁, h₂]

theorem logEnd_push_chunk (start : ℕ) (log : List Record) (M : ℕ → UInt8)
    (hm : ofs % maxWrite = 0) (hlt : ofs < storageSize) :
    logEnd start (log ++ [chunkRecord M ofs hm hlt]) = logEnd start log + 66 := by
  rw [logEnd_push, chunkRecord_size]

theorem ends_writeWith_rule {P : State → Prop} (he : s.writeError = false)
    (hm : ofs % maxWrite = 0) (hlt : ofs < storageSize)
    (room : Ends (makeRoom cfg sfs s) (fun ok s₁ => ok = true ∧ P s₁) E)
    (record : ∀ s₁, P s₁ → Ends (writeRecord (blockFor ofs maxWrite) s₁)
    (fun ok s₂ => ok = true ∧ Q true s₂) E) : Ends (writeWith cfg sfs ofs maxWrite s) Q E := by
  obtain ⟨-, -, -, -, h₅⟩ := blockFor_chunk hm hlt
  simp only [writeWith, ends_bind, ends_state, he, Bool.false_eq_true, if_false]
  rw [writeLoop, ends_ite, if_neg (by decide)]
  simp only [ends_bind, h₅]
  refine room.post ?_
  rintro ok s₁ ⟨rfl, h₁⟩
  simp only [Bool.not_true, Bool.false_eq_true, if_false, ends_bind]
  refine (record s₁ h₁).post ?_
  rintro ok s₂ ⟨rfl, h₂⟩
  simp only [Bool.not_true, Bool.false_eq_true, if_false]
  rw [ends_ite, if_neg (by decide), writeLoop, ends_ite, if_pos (by decide), ends_pure]
  exact h₂

theorem ends_writeWith_chunk (hs : Stored cfg.sectorSize s.flash s.currentSector full old log m)
    (ho : s.writeOffset = logEnd sectorHeaderSize log) (he : s.writeError = false)
    (hm : ofs % maxWrite = 0) (hlt : ofs < storageSize)
    (room : logEnd sectorHeaderSize log + (66 + s.reservedSpace) ≤ cfg.sectorSize) :
    Ends (writeWith cfg sfs ofs maxWrite s) (fun ok s' => ok = true ∧
      Stored cfg.sectorSize s'.flash s.currentSector full old
        (log ++ [chunkRecord s.memBuffer ofs hm hlt])
        ((chunkRecord s.memBuffer ofs hm hlt).apply m) ∧
      s' = { s with flash := s'.flash, writeOffset := s.writeOffset + 66 })
      (CutOk cfg.sectorSize m s.memBuffer) := by
  obtain ⟨h₁, h₂, -, h₄, -⟩ := blockFor_chunk hm hlt
  refine ends_writeWith_rule (P := (· = s)) he hm hlt ?_ ?_
  · rw [ends_makeRoom_of_room (by rw [ho]; exact room)]
    exact ⟨rfl, rfl⟩
  · rintro s₁ rfl
    refine (ends_writeRecord hs ho rfl (by omega) ?_ (by rw [h₄, blockHeaderSize]; omega)).post ?_
    · simp only [maxWrite, storageSize, blockSize, numBlocks] at hm hlt h₁ h₂ ⊢
      omega
    · rintro ok s' ⟨rfl, hs', hst⟩
      exact ⟨rfl, rfl, hs', hst⟩

/-- The chunks of `offsets` that `write_all` does not skip. -/
def nonZero (M : ℕ → UInt8) (offsets : List ℕ) : List ℕ :=
  offsets.filter fun ofs => !allZero M ofs maxWrite

/-- The address is in one of the chunks. -/
def InChunks (offsets : List ℕ) (a : ℕ) : Prop := ∃ ofs ∈ offsets, ofs ≤ a ∧ a < ofs + 64
deriving Decidable

theorem inChunks_cons (ofs : ℕ) (offsets : List ℕ) (a : ℕ) :
    InChunks (ofs :: offsets) a ↔ (ofs ≤ a ∧ a < ofs + 64) ∨ InChunks offsets a :=
  exists_mem_cons_iff (fun o => o ≤ a ∧ a < o + 64) ofs offsets

theorem replay_chunkRecord_cons {M : ℕ → UInt8} {log : List Record} {chunks : List ℕ}
    (h : ∀ m a, replay log m a = if InChunks chunks a then M a else m a) (hm : ofs % maxWrite = 0)
    (hlt : ofs < storageSize) (m : ℕ → UInt8) (a : ℕ) :
    replay (chunkRecord M ofs hm hlt :: log) m a =
      if InChunks (ofs :: chunks) a then M a else m a := by
  rw [replay_cons, h, chunkRecord_apply]
  by_cases later : InChunks chunks a
  · rw [if_pos later, if_pos ((inChunks_cons ofs chunks a).2 (.inr later))]
  · simp only [inChunks_cons, later, or_false, if_false]

/-- `write_all` appends a record for each chunk that is not all zero. -/
theorem ends_writeAllFrom {offsets : List ℕ}
    (hoff : ∀ ofs ∈ offsets, ofs % maxWrite = 0 ∧ ofs < storageSize)
    (hs : Stored cfg.sectorSize s.flash s.currentSector full old log m)
    (ho : s.writeOffset = logEnd sectorHeaderSize log) (he : s.writeError = false)
    (hr : s.reservedSpace = 0)
    (room : logEnd sectorHeaderSize log + 66 * (nonZero s.memBuffer offsets).length ≤
    cfg.sectorSize) :
    Ends (writeAllFrom (writeWith cfg sfs) offsets s) (fun ok s' => ok = true ∧ ∃ log',
      Stored cfg.sectorSize s'.flash s.currentSector full old (log ++ log') (replay log' m) ∧
      (∀ m₁ a, replay log' m₁ a =
        if InChunks (nonZero s.memBuffer offsets) a then s.memBuffer a else m₁ a) ∧
      logEnd sectorHeaderSize (log ++ log') =
        logEnd sectorHeaderSize log + 66 * (nonZero s.memBuffer offsets).length ∧
      s' = { s with flash := s'.flash, writeOffset := logEnd sectorHeaderSize (log ++ log') })
      (CutOk cfg.sectorSize m s.memBuffer) := by
  induction offsets generalizing s log m with
  | nil =>
    rw [writeAllFrom, ends_pure]
    refine ⟨rfl, [], by simpa using hs, by simp [nonZero, InChunks], by simp [nonZero], ?_⟩
    rw [append_nil, ← ho]
  | cons ofs rest ih =>
    obtain ⟨hm, hlt⟩ := hoff ofs (by simp)
    have hrest : ∀ o ∈ rest, o % maxWrite = 0 ∧ o < storageSize :=
      fun o h => hoff o (mem_cons_of_mem _ h)
    simp only [writeAllFrom, ends_bind, ends_state]
    by_cases hz : allZero s.memBuffer ofs maxWrite = true
    · have hnz : nonZero s.memBuffer (ofs :: rest) = nonZero s.memBuffer rest := by
        simp [nonZero, hz]
      rw [if_pos hz, hnz]
      rw [hnz] at room
      exact ih hrest hs ho he hr room
    · have hnz : nonZero s.memBuffer (ofs :: rest) = ofs :: nonZero s.memBuffer rest := by
        simp [nonZero, hz]
      rw [if_neg hz, hnz]
      rw [hnz, length_cons] at room
      rw [ends_bind]
      refine (ends_writeWith_chunk hs ho he hm hlt (by rw [hr]; omega)).post ?_
      rintro ok s' ⟨rfl, hs', hst⟩
      obtain ⟨hM, hc, he', hr', ho'⟩ : s'.memBuffer = s.memBuffer ∧
          s'.currentSector = s.currentSector ∧ s'.writeError = false ∧ s'.reservedSpace = 0 ∧
          s'.writeOffset = s.writeOffset + 66 := by
        rw [hst]
        exact ⟨rfl, rfl, he, hr, rfl⟩
      have hend := logEnd_push_chunk sectorHeaderSize log s.memBuffer hm hlt
      rw [← hc] at hs'
      have step := ih (s := s') hrest hs' (by rw [ho', ho, hend]) he' hr' (by rw [hM, hend]; omega)
      refine step.mono ?_ ?_
      · rintro ok s'' ⟨rfl, log', h₁, h₂, h₃, h₄⟩
        refine ⟨rfl, chunkRecord s.memBuffer ofs hm hlt :: log', ?_, ?_, ?_, ?_⟩
        · rw [hc] at h₁
          simpa using h₁
        · rw [hM] at h₂
          exact replay_chunkRecord_cons h₂ hm hlt
        · rw [hM, hend, append_assoc] at h₃
          rw [← singleton_append, h₃, length_cons]
          omega
        · rw [h₄, hst, append_assoc]
          rfl
      · intro e he
        rw [hM] at he
        exact he.mono (mixed_recordOf _ _ _)

end WriteAll

end Tm4cPilot.FlashStorage
