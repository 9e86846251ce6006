import Tm4cPilot.FlashStorage.Model

/-!
# The log of a sector

`replay` is the buffer a log rebuilds, and `Holds S sec st log` says that a sector is a header in
state `st`, the records of `log`, and erased bytes up to the size `S`.
-/

namespace Tm4cPilot.FlashStorage

open Memory Program List UInt8

theorem ff_and (b : UInt8) : 0xFF &&& b = b := by
  rw [← UInt8.toBitVec_inj, UInt8.toBitVec_and]
  exact BitVec.allOnes_and

theorem and_self_byte (b : UInt8) : b &&& b = b := by
  rw [← UInt8.toBitVec_inj, UInt8.toBitVec_and, BitVec.and_self]

theorem zipWith_ff_and (l l' : List UInt8) (h : ∀ b ∈ l, b = 0xFF) (hl : l.length = l'.length) :
    zipWith (· &&& ·) l l' = l' := by
  apply ext_getElem (by simp [hl])
  intro i h₁ h₂
  rw [getElem_zipWith, h _ (getElem_mem _), ff_and]

theorem writing_and_valid (k : ℕ) :
    UInt8.ofNat (1 + 4 * (k % 64)) &&& UInt8.ofNat (0 + 4 * (k % 64)) =
      UInt8.ofNat (0 + 4 * (k % 64)) := by
  have checked : ∀ j : Fin 64, UInt8.ofNat (1 + 4 * j.val) &&& UInt8.ofNat (0 + 4 * j.val) =
      UInt8.ofNat (0 + 4 * j.val) := by decide
  exact checked ⟨k % 64, Nat.mod_lt _ (by decide)⟩

theorem SectorHeader.ofBytes_bytes (h : SectorHeader) (small : h.signature < 2 ^ 24) :
    ofBytes h.bytes = h := by
  obtain ⟨state, signature⟩ := h
  simp only [ofBytes, bytes, getD_cons_zero, getD_cons_succ, toNat_ofNat',
    SectorHeader.mk.injEq, true_and]
  simp only at small
  omega

@[simp] theorem BlockHeader.length_bytes (h : BlockHeader) : h.bytes.length = 2 := rfl

/-- The header of a sector. -/
def headerBytes (st : SectorState) : List UInt8 := SectorHeader.bytes ⟨st.code, signature⟩

@[simp] theorem length_headerBytes (st : SectorState) : (headerBytes st).length = 4 := rfl

theorem ofBytes_headerBytes (st : SectorState) :
    SectorHeader.ofBytes (headerBytes st) = ⟨st.code, signature⟩ :=
  SectorHeader.ofBytes_bytes _ (show signature < 2 ^ 24 by decide)

@[simp] theorem headerState_headerBytes (st : SectorState) :
    headerState (headerBytes st) = some st := by
  simp [headerState, ofBytes_headerBytes]

theorem headerState_erased : headerState [0xFF, 0xFF, 0xFF, 0xFF] = none := by decide

theorem zipWith_available_inUse : zipWith (· &&& ·) (headerBytes .available)
    (headerBytes .inUse) = headerBytes .inUse := by decide

theorem zipWith_inUse_full : zipWith (· &&& ·) (headerBytes .inUse)
    (headerBytes .full) = headerBytes .full := by decide

/-! ## Records -/

/-- A block record; one that is not valid was cut off. -/
structure Record where
  valid : Bool
  blockNum : ℕ
  numBlocks : ℕ
  data : List UInt8
  pos : 0 < numBlocks
  le_eight : numBlocks ≤ 8
  inStorage : blockNum + numBlocks ≤ 2048
  length_data : data.length = numBlocks * 8

namespace Record

/-- Its block header. -/
def header (r : Record) : BlockHeader where
  state := if r.valid then BlockHeader.stateValid else BlockHeader.stateWriting
  blockNum := r.blockNum
  numBlocksMinusOne := r.numBlocks - 1

def size (r : Record) : ℕ := blockHeaderSize + r.numBlocks * 8

/-- Its effect on the buffer. -/
def apply (r : Record) (m : ℕ → UInt8) : ℕ → UInt8 :=
  if r.valid then writeBlock m (r.blockNum * 8) r.data else m

theorem blockNbytes_header (r : Record) : r.header.blockNbytes = r.numBlocks * 8 := by
  have := r.pos
  simp only [header, BlockHeader.blockNbytes, blockSize]
  omega

theorem ofBytes_header (r : Record) : BlockHeader.ofBytes r.header.bytes = r.header := by
  have h₁ := r.pos
  have h₂ := r.le_eight
  have h₃ := r.inStorage
  simp only [BlockHeader.ofBytes, BlockHeader.bytes, header, getD_cons_zero,
    getD_cons_succ, toNat_ofNat', BlockHeader.mk.injEq]
  cases r.valid <;> simp only [BlockHeader.stateValid, BlockHeader.stateWriting, if_true,
    Bool.false_eq_true, if_false] <;> refine ⟨?_, ?_, ?_⟩ <;> omega

end Record

/-- The buffer that loading a log rebuilds from `m`. -/
def replay (log : List Record) (m : ℕ → UInt8) : ℕ → UInt8 := log.foldl (fun m r => r.apply m) m

@[simp] theorem replay_nil (m : ℕ → UInt8) : replay [] m = m := rfl

@[simp] theorem replay_cons (r : Record) (log : List Record) (m : ℕ → UInt8) :
    replay (r :: log) m = replay log (r.apply m) := rfl

theorem replay_append (l₁ l₂ : List Record) (m : ℕ → UInt8) :
    replay (l₁ ++ l₂) m = replay l₂ (replay l₁ m) := foldl_append

/-- Where a log that starts at `ofs` ends. -/
def logEnd (ofs : ℕ) (log : List Record) : ℕ := ofs + (log.map Record.size).sum

@[simp] theorem logEnd_nil (ofs : ℕ) : logEnd ofs [] = ofs := rfl

theorem logEnd_cons (ofs : ℕ) (r : Record) (log : List Record) :
    logEnd ofs (r :: log) = logEnd (ofs + r.size) log := by
  simp [logEnd, Nat.add_assoc]

theorem logEnd_push (ofs : ℕ) (log : List Record) (r : Record) :
    logEnd ofs (log ++ [r]) = logEnd ofs log + r.size := by
  simp [logEnd, Nat.add_assoc]

theorem le_logEnd (ofs : ℕ) (log : List Record) : ofs ≤ logEnd ofs log := Nat.le_add_right _ _

/-- The records of `log` lie one after the other from `ofs` on. -/
def LogAt (sec : ℕ → UInt8) : ℕ → List Record → Prop
  | _, [] => True
  | ofs, r :: log => readBlock sec ofs 2 = r.header.bytes ∧
      readBlock sec (ofs + 2) (r.numBlocks * 8) = r.data ∧ LogAt sec (ofs + r.size) log

variable {sec : ℕ → UInt8} {log : List Record}

theorem LogAt.congr {sec' : ℕ → UInt8} {ofs : ℕ} (h : LogAt sec ofs log)
    (hs : ∀ a, ofs ≤ a → a < logEnd ofs log → sec' a = sec a) : LogAt sec' ofs log := by
  induction log generalizing ofs with
  | nil => trivial
  | cons r log ih =>
    obtain ⟨h₁, h₂, h₃⟩ := h
    have hle := le_logEnd (ofs + r.size) log
    rw [logEnd_cons] at hs
    have hsize : r.size = 2 + r.numBlocks * 8 := rfl
    refine ⟨?_, ?_, ih h₃ fun a ha hb => hs a (by omega) hb⟩
    · rw [← h₁]
      exact readBlock_congr fun a ha hb => hs a ha (by omega)
    · rw [← h₂]
      exact readBlock_congr fun a ha hb => hs a (by omega) (by omega)

theorem logAt_push {ofs : ℕ} {r : Record} :
    LogAt sec ofs (log ++ [r]) ↔ LogAt sec ofs log ∧
      readBlock sec (logEnd ofs log) 2 = r.header.bytes ∧
      readBlock sec (logEnd ofs log + 2) (r.numBlocks * 8) = r.data := by
  induction log generalizing ofs with
  | nil => simp [LogAt]
  | cons r' log ih => simp only [cons_append, LogAt, ih, logEnd_cons, and_assoc]

/-- A header in state `st`, the log, and erased bytes. -/
structure Holds (S : ℕ) (sec : ℕ → UInt8) (st : SectorState) (log : List Record) : Prop where
  header : readBlock sec 0 sectorHeaderSize = headerBytes st
  records : LogAt sec sectorHeaderSize log
  blank : ∀ a, logEnd sectorHeaderSize log ≤ a → a < S → sec a = 0xFF
  le : logEnd sectorHeaderSize log ≤ S

theorem Holds.push {S : ℕ} {sec' : ℕ → UInt8} {st : SectorState} (h : Holds S sec st log)
    (r : Record) (room : logEnd sectorHeaderSize log + r.size ≤ S)
    (frame : ∀ a, a < logEnd sectorHeaderSize log ∨ logEnd sectorHeaderSize log + r.size ≤ a →
    sec' a = sec a) (header : readBlock sec' (logEnd sectorHeaderSize log) 2 = r.header.bytes)
    (data : readBlock sec' (logEnd sectorHeaderSize log + 2) (r.numBlocks * 8) = r.data) :
    Holds S sec' st (log ++ [r]) where
  header := by
    have := le_logEnd sectorHeaderSize log
    rw [← h.header]
    exact readBlock_congr fun a _ ha => frame a (by omega)
  records := logAt_push.2 ⟨h.records.congr fun a _ ha => frame a (.inl ha), header, data⟩
  blank a h₁ h₂ := by
    rw [logEnd_push] at h₁
    rw [frame a (.inr h₁)]
    exact h.blank a (by omega) h₂
  le := by rw [logEnd_push]; exact room

theorem Holds.setHeader {S : ℕ} {st st' : SectorState} (h : Holds S sec st log)
    (hand : zipWith (· &&& ·) (headerBytes st) (headerBytes st') = headerBytes st') :
    Holds S (updateBlock (· &&& ·) sec 0 (headerBytes st')) st' log where
  header := by
    have := readBlock_updateBlock_same (· &&& ·) sec 0 (headerBytes st')
    rw [length_headerBytes] at this
    rw [sectorHeaderSize, this, show readBlock sec 0 4 = headerBytes st from h.header, hand]
  records := h.records.congr fun a ha _ =>
    updateBlock_apply_out _ _ (.inr (by simpa [sectorHeaderSize] using ha))
  blank a h₁ h₂ := by
    have := le_logEnd sectorHeaderSize log
    rw [updateBlock_apply_out _ _ (.inr (by simp [sectorHeaderSize] at *; omega))]
    exact h.blank a h₁ h₂
  le := h.le

/-! ## Loading a log -/

section Loading

variable {cfg : Config} {Q : Bool → State → Prop} {E : CallSite × Flash → Prop}

theorem ends_flashRead (sector : Fin 2) (offset length : ℕ) {Q : Bool × List UInt8 → State → Prop}
    (s : State) : Ends (flashRead sector offset length s) Q E ↔
      Q (true, readBlock (s.flash sector) offset length) s := by
  simp only [flashRead, ends_bind, ends_state, ends_pure]

theorem ends_loadBlock (sector : Fin 2) (ofs : ℕ) (r : Record) (s : State)
    (data : readBlock (s.flash sector) (ofs + 2) (r.numBlocks * 8) = r.data) :
    Ends (loadBlock sector ofs r.header s) Q E ↔
      Q true { s with memBuffer := r.apply s.memBuffer } := by
  unfold loadBlock Record.apply
  by_cases hv : r.valid
  · have hstate : r.header.state = BlockHeader.stateValid := by simp [Record.header, hv]
    rw [ends_ite, if_pos hstate, if_pos hv, r.blockNbytes_header]
    simp only [ends_bind, ends_flashRead, blockHeaderSize, data, Bool.not_true,
      Bool.false_eq_true, if_false, ends_update, ends_pure]
    rfl
  · have hstate : r.header.state ≠ BlockHeader.stateValid := by
      simp [Record.header, hv, BlockHeader.stateValid, BlockHeader.stateWriting]
    rw [ends_ite, if_neg hstate, ends_pure]
    simp [hv]

theorem ends_loadFrom_end (sector : Fin 2) (ofs : ℕ) (s : State)
    (blank : ∀ a, ofs ≤ a → a < cfg.sectorSize → s.flash sector a = 0xFF) :
    Ends (loadFrom cfg sector ofs s) Q E ↔ Q true { s with writeOffset := ofs } := by
  rw [loadFrom, ends_ite]
  split_ifs with h
  · have hbytes : readBlock (s.flash sector) ofs 2 = [0xFF, 0xFF] := by
      refine (readBlock_eq_iff (by rfl)).2 ?_
      intro i hi
      simp only [length_cons, length_nil, blockHeaderSize] at hi h
      rw [blank _ (by omega) (by omega)]
      interval_cases i <;> rfl
    simp only [ends_bind, ends_flashRead, blockHeaderSize, hbytes, Bool.not_true,
      Bool.false_eq_true, if_false, ends_ite]
    rw [if_pos (by decide)]
    simp only [ends_update, ends_pure]
  · simp only [ends_bind, ends_update, ends_pure]

theorem ends_loadFrom (sector : Fin 2) {ofs : ℕ} {log : List Record} {s : State}
    (hlog : LogAt (s.flash sector) ofs log)
    (blank : ∀ a, logEnd ofs log ≤ a → a < cfg.sectorSize → s.flash sector a = 0xFF)
    (le : logEnd ofs log ≤ cfg.sectorSize) :
    Ends (loadFrom cfg sector ofs s) Q E ↔
      Q true { s with memBuffer := replay log s.memBuffer, writeOffset := logEnd ofs log } := by
  induction log generalizing ofs s with
  | nil => exact ends_loadFrom_end sector ofs s blank
  | cons r log ih =>
    obtain ⟨hheader, hdata, hrest⟩ := hlog
    rw [logEnd_cons] at blank le ⊢
    have hend := le_logEnd (ofs + r.size) log
    have hpos := r.pos
    have hsize : r.size = 2 + r.numBlocks * 8 := rfl
    have hin : ¬ (r.header.blockOfs + r.header.blockNbytes > storageSize) := by
      have := r.inStorage
      rw [r.blockNbytes_header]
      simp only [BlockHeader.blockOfs, Record.header, blockSize, storageSize, numBlocks]
      omega
    have hstate : r.header.state ≠ BlockHeader.stateAvailable ∧
        (r.header.state = BlockHeader.stateValid ∨ r.header.state = BlockHeader.stateWriting) := by
      cases hv : r.valid <;> simp [Record.header, hv, BlockHeader.stateAvailable,
        BlockHeader.stateValid, BlockHeader.stateWriting]
    have hnext : ofs + r.header.blockNbytes + blockHeaderSize = ofs + r.size := by
      rw [r.blockNbytes_header, hsize, blockHeaderSize]
      omega
    rw [loadFrom, ends_ite, if_pos (by simp only [blockHeaderSize]; omega)]
    simp only [ends_bind, ends_flashRead, blockHeaderSize, hheader, r.ofBytes_header, Bool.not_true,
      Bool.false_eq_true, if_false, ends_ite, if_neg hstate.1, if_pos hstate.2, if_neg hin,
      ends_loadBlock sector ofs r s hdata]
    rw [show ofs + r.header.blockNbytes + 2 = ofs + r.size from hnext]
    exact ih (s := { s with memBuffer := r.apply s.memBuffer }) hrest blank le

theorem ends_loadSector {sector : Fin 2} {st : SectorState} {log : List Record} {s : State}
    (h : Holds cfg.sectorSize (s.flash sector) st log) :
    Ends (loadSector cfg sector s) Q E ↔ Q true { s with
      memBuffer := replay log s.memBuffer
      writeOffset := logEnd sectorHeaderSize log } :=
  ends_loadFrom sector h.records h.blank h.le

end Loading

end Tm4cPilot.FlashStorage
