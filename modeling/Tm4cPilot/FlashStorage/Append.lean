import Tm4cPilot.FlashStorage.Log

/-!
# Appending a record

A block record is appended by three flash writes: the header as being written, the data, and the
header as valid. Only the last one makes the record count.
-/

namespace Tm4cPilot.FlashStorage

open Memory Program Function BlockHeader List

section Callbacks

variable {cfg : Config} {Q : Bool → State → Prop} {E : CallSite × Flash → Prop}

theorem ends_flashWrite (site : CallSite) (sector : Fin 2) (offset : ℕ) (data : List UInt8)
    (s : State) :
    Ends (flashWrite site sector offset data s) Q E ↔
      E (site, update s.flash sector
        (updateBlock (· &&& ·) (s.flash sector) offset data)) ∧
      Q true (s.setSector sector (updateBlock (· &&& ·) (s.flash sector) offset data)) := by
  simp only [flashWrite, ends_bind, ends_update, ends_emit, ends_pure]
  rfl

theorem ends_flashErase (sector : Fin 2) (s : State) :
    Ends (flashErase cfg sector s) Q E ↔
      E (.sectorErase, update s.flash sector (erased cfg.sectorSize (s.flash sector))) ∧
      Q true (s.setSector sector (erased cfg.sectorSize (s.flash sector))) := by
  simp only [flashErase, ends_bind, ends_update, ends_emit, ends_pure]
  rfl

@[simp] theorem setSector_flash_self (s : State) (c : Fin 2) (m : ℕ → UInt8) :
    (s.setSector c m).flash c = m := update_self ..

theorem setSector_flash_of_ne (s : State) {c c' : Fin 2} (h : c' ≠ c) (m : ℕ → UInt8) :
    (s.setSector c m).flash c' = s.flash c' := update_of_ne h ..

@[simp] theorem setSector_setSector (s : State) (c : Fin 2) (m m' : ℕ → UInt8) :
    (s.setSector c m).setSector c m' = s.setSector c m' := by
  simp [State.setSector]

@[simp] theorem update_setSector (s : State) (c : Fin 2) (m m' : ℕ → UInt8) :
    update (s.setSector c m).flash c m' = update s.flash c m' := by
  simp [State.setSector]

theorem other_ne (c : Fin 2) : c + 1 ≠ c := by
  fin_cases c <;> decide

@[simp] theorem other_other (c : Fin 2) : c + 1 + 1 = c := by
  fin_cases c <;> rfl

theorem readBlock_erased (sec : ℕ → UInt8) :
    readBlock (erased cfg.sectorSize sec) 0 sectorHeaderSize = [0xFF, 0xFF, 0xFF, 0xFF] := by
  have hsize := cfg.sectorSize_ge
  refine (readBlock_eq_iff (by rfl)).2 ?_
  intro i hi
  simp only [length_cons, length_nil] at hi
  rw [erased, if_pos (by omega)]
  interval_cases i <;> rfl

theorem holds_erased (sec : ℕ → UInt8) :
    Holds cfg.sectorSize (updateBlock (· &&& ·) (erased cfg.sectorSize sec) 0
      (headerBytes .available)) .available [] where
  header := by
    have hread := readBlock_updateBlock_same (· &&& ·) (erased cfg.sectorSize sec) 0
      (headerBytes .available)
    rw [length_headerBytes] at hread
    rw [sectorHeaderSize, hread]
    have herased : readBlock (erased cfg.sectorSize sec) 0 4 = _ := readBlock_erased sec
    rw [herased]
    decide
  records := trivial
  blank a h₁ h₂ := by
    rw [updateBlock_apply_out _ _ (.inr (by simpa [sectorHeaderSize] using h₁)), erased, if_pos h₂]
  le := by
    have hsize := cfg.sectorSize_ge
    rw [logEnd_nil, sectorHeaderSize]
    omega

theorem ends_eraseSector (sector : Fin 2) (s : State)
    (hE : E (.sectorErase, update s.flash sector (erased cfg.sectorSize (s.flash sector))))
    (h : ∀ sec, Holds cfg.sectorSize sec .available [] →
    E (.sectorAvailable, update s.flash sector sec) ∧ Q true (s.setSector sector sec)) :
    Ends (eraseSector cfg sector s) Q E := by
  simp only [eraseSector, ends_bind, ends_flashErase, Bool.not_true, Bool.false_eq_true, if_false,
    ends_flashWrite, setSector_flash_self, setSector_setSector, update_setSector]
  exact ⟨hE, h _ (holds_erased _)⟩

end Callbacks

/-! ## One record -/

/-- The record that `write` appends for a block header. -/
def recordOf (header : BlockHeader) (h₁ : header.numBlocksMinusOne < 8)
    (h₂ : header.blockNum + header.numBlocksMinusOne < 2048) (M : ℕ → UInt8) : Record where
  valid := true
  blockNum := header.blockNum
  numBlocks := header.numBlocksMinusOne + 1
  data := readBlock M header.blockOfs header.blockNbytes
  pos := Nat.succ_pos _
  le_eight := h₁
  inStorage := h₂
  length_data := length_readBlock ..

theorem recordOf_apply (header : BlockHeader) (h₁ : header.numBlocksMinusOne < 8)
    (h₂ : header.blockNum + header.numBlocksMinusOne < 2048) (M m : ℕ → UInt8) (a : ℕ) :
    (recordOf header h₁ h₂ M).apply m a =
      if header.blockOfs ≤ a ∧ a < header.blockOfs + header.blockNbytes then M a else m a :=
  writeBlock_readBlock_apply m M header.blockOfs header.blockNbytes a

/-- A record that was cut off. -/
def Record.cut (r : Record) (data : List UInt8) (h : data.length = r.numBlocks * 8) : Record :=
  { r with valid := false, data := data, length_data := h }

theorem header_cut (r : Record) (data : List UInt8) (h : data.length = r.numBlocks * 8) :
    (r.cut data h).header =
      { state := stateWriting, blockNum := r.blockNum,
        numBlocksMinusOne := r.numBlocks - 1 } := rfl

theorem size_cut (r : Record) (data : List UInt8) (h : data.length = r.numBlocks * 8) :
    (r.cut data h).size = r.size := rfl

section Append

variable {S : ℕ} {sec : ℕ → UInt8} {st : SectorState} {log : List Record}

/-- The sector after the first write. -/
def appendWriting (sec : ℕ → UInt8) (e : ℕ) (r : Record) : ℕ → UInt8 :=
  updateBlock (· &&& ·) sec e (BlockHeader.bytes { r.header with state := BlockHeader.stateWriting })

/-- After the second one. -/
def appendData (sec : ℕ → UInt8) (e : ℕ) (r : Record) : ℕ → UInt8 :=
  updateBlock (· &&& ·) (appendWriting sec e r) (e + blockHeaderSize) r.data

/-- After the third one. -/
def appendValid (sec : ℕ → UInt8) (e : ℕ) (r : Record) : ℕ → UInt8 :=
  updateBlock (· &&& ·) (appendData sec e r) e
    (BlockHeader.bytes { r.header with state := BlockHeader.stateValid })

theorem appendWriting_frame (e : ℕ) (r : Record) {a : ℕ} (ha : a < e ∨ e + 2 ≤ a) :
    appendWriting sec e r a = sec a :=
  updateBlock_apply_out _ _ (by simpa using ha)

theorem appendData_frame (e : ℕ) (r : Record) {a : ℕ} (ha : a < e ∨ e + r.size ≤ a) :
    appendData sec e r a = sec a := by
  have hsize : r.size = 2 + r.numBlocks * 8 := rfl
  rw [appendData, updateBlock_apply_out, appendWriting_frame]
  · omega
  · rw [r.length_data, blockHeaderSize]
    omega

theorem appendValid_frame (e : ℕ) (r : Record) {a : ℕ} (ha : a < e ∨ e + r.size ≤ a) :
    appendValid sec e r a = sec a := by
  have hsize : r.size = 2 + r.numBlocks * 8 := rfl
  rw [appendValid, updateBlock_apply_out, appendData_frame e r ha]
  simp only [length_bytes]
  omega

theorem readBlock_and_blank {e : ℕ} {l : List UInt8}
    (blank : ∀ a, e ≤ a → a < e + l.length → sec a = 0xFF) :
    readBlock (updateBlock (· &&& ·) sec e l) e l.length = l := by
  rw [readBlock_updateBlock_same]
  apply zipWith_ff_and _ _ _ (length_readBlock ..)
  intro b hb
  obtain ⟨i, hi, rfl⟩ := getElem_of_mem hb
  rw [length_readBlock] at hi
  rw [getElem_readBlock]
  exact blank _ (by omega) (by omega)

variable (h : Holds S sec st log) (r : Record)
  (room : logEnd sectorHeaderSize log + r.size ≤ S)

include h room

theorem Holds.blank_tail {a : ℕ} (h₁ : logEnd sectorHeaderSize log ≤ a)
    (h₂ : a < logEnd sectorHeaderSize log + r.size) : sec a = 0xFF :=
  h.blank a h₁ (by omega)

theorem readBlock_appendWriting :
    readBlock (appendWriting sec (logEnd sectorHeaderSize log) r) (logEnd sectorHeaderSize log) 2 =
      bytes { r.header with state := stateWriting } := by
  have hsize : r.size = 2 + r.numBlocks * 8 := rfl
  refine readBlock_and_blank (l := bytes _) fun a h₁ h₂ => ?_
  exact h.blank_tail r room h₁ (by simp only [length_bytes] at h₂; omega)

theorem Holds.appendWriting : Holds S (appendWriting sec (logEnd sectorHeaderSize log) r) st
    (log ++ [r.cut (replicate (r.numBlocks * 8) 0xFF) (by simp)]) := by
  have hsize : r.size = 2 + r.numBlocks * 8 := rfl
  refine h.push _ room (fun a ha => appendWriting_frame _ _ (by rw [size_cut] at ha; omega))
    (readBlock_appendWriting h r room) ?_
  apply ext_getElem (by simp [Record.cut])
  intro i h₁ h₂
  simp only [length_readBlock, Record.cut] at h₁
  rw [getElem_readBlock, appendWriting_frame _ _ (by omega),
    h.blank_tail r room (by omega) (by omega)]
  simp [Record.cut]

theorem Holds.appendData : Holds S (appendData sec (logEnd sectorHeaderSize log) r) st
    (log ++ [r.cut r.data r.length_data]) := by
  have hsize : r.size = 2 + r.numBlocks * 8 := rfl
  refine h.push _ room (fun a ha => appendData_frame _ _ ha) ?_ ?_
  · rw [FlashStorage.appendData, blockHeaderSize, readBlock_updateBlock_out _ _ (.inl le_rfl)]
    exact readBlock_appendWriting h r room
  · have blank : ∀ a, logEnd sectorHeaderSize log + 2 ≤ a →
        a < logEnd sectorHeaderSize log + 2 + r.data.length →
        FlashStorage.appendWriting sec (logEnd sectorHeaderSize log) r a = 0xFF := by
      intro a h₁ h₂
      rw [r.length_data] at h₂
      rw [appendWriting_frame _ _ (by omega), h.blank_tail r room (by omega) (by omega)]
    have hread := readBlock_and_blank blank
    rw [r.length_data] at hread
    exact hread

theorem Holds.appendValid (hv : r.valid = true) :
    Holds S (appendValid sec (logEnd sectorHeaderSize log) r) st (log ++ [r]) := by
  have hdata := (h.appendData r room).records
  rw [logAt_push] at hdata
  refine h.push _ room (fun a ha => appendValid_frame _ _ ha) ?_ ?_
  · have hread := readBlock_updateBlock_same (· &&& ·)
      (FlashStorage.appendData sec (logEnd sectorHeaderSize log) r) (logEnd sectorHeaderSize log)
      (bytes { r.header with state := stateValid })
    rw [length_bytes, hdata.2.1] at hread
    refine hread.trans ?_
    rw [header_cut]
    simp only [Record.header, hv, if_true, bytes, zipWith_cons_cons, zipWith_nil_left,
      and_self_byte, cons.injEq, and_true, stateWriting, stateValid]
    exact writing_and_valid r.blockNum
  · rw [FlashStorage.appendValid, readBlock_updateBlock_out _ _ (.inr (by simp))]
    exact hdata.2.2

end Append

end Tm4cPilot.FlashStorage
