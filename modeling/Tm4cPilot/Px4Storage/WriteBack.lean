import Tm4cPilot.Px4Storage.ReadBack

/-!
# Writing dirty lines back

Every line that differs from the EEPROM is marked, no other bit is set, and so as many ticks as
there are marked lines bring the EEPROM up to date.  The storage has to be open, and no write may
change the last byte: `_mark_dirty` includes the line of the byte after the written ones, which then
does not exist.
-/

namespace Tm4cPilot.Px4Storage

open Run List

/-- Writes that change something end before the last byte. -/
def EndsInside (s : State) : Op → Prop
  | .write loc src => loc.toNat + src.length ≤ storageSize ∧
      (loc.toNat + src.length = storageSize →
        src = Memory.readBlock s.buffer loc.toNat src.length)
  | _ => True

/-- The dirty lines. -/
def dirtySet (s : State) : Finset ℕ :=
  (Finset.range numLines).filter fun line => s.dirtyMask.get line = true

/-- The mask marks the lines that differ, and only lines. -/
structure Tracked (s : State) : Prop where
  numwords : s.dirtyMask.numwords = 1
  clean : ∀ bit, numLines ≤ bit → s.dirtyMask.get bit = false
  dirty : s.initialised = true → ∀ a < storageSize, s.buffer a ≠ s.eeprom a →
    s.dirtyMask.get (a / lineSize) = true

theorem get_foldl_set (lines : List ℕ) (m : Bitmask) (bit : ℕ) :
    (lines.foldl Bitmask.set m).get bit = (decide (bit ∈ lines) || m.get bit) := by
  induction lines generalizing m with
  | nil => simp
  | cons line lines ih =>
    rw [foldl_cons, ih, Bitmask.get_set, Bool.eq_iff_iff]
    simp only [Bool.or_eq_true, decide_eq_true_eq, mem_cons]
    tauto

theorem numwords_foldl_set (lines : List ℕ) (m : Bitmask) :
    (lines.foldl Bitmask.set m).numwords = m.numwords := by
  induction lines generalizing m with
  | nil => rfl
  | cons line lines ih => rw [foldl_cons, ih, Bitmask.numwords_set]

theorem mem_dirtyLines {loc length line : ℕ} (h : loc + length < storageSize) :
    line ∈ dirtyLines loc length ↔ loc / lineSize ≤ line ∧ line ≤ (loc + length) / lineSize := by
  simp only [storageSize] at h
  rw [dirtyLines, mem_range'_1, Nat.mod_eq_of_lt (by omega)]
  omega

section Steps

variable {s : State} {line : ℕ}

theorem tracked_storageOpen (h : Tracked s) : Tracked (storageOpen s) := by
  by_cases hi : s.initialised = true
  · rw [storageOpen, if_pos hi]
    exact h
  · have hi : s.initialised = false := by simpa using hi
    refine ⟨?_, fun bit hbit => ?_, fun _ a ha hne => ?_⟩
    · simp only [storageOpen, hi, Bool.false_eq_true, if_false, mtdLoad]
      exact h.numwords
    · simp only [storageOpen, hi, Bool.false_eq_true, if_false, mtdLoad]
      rw [Bitmask.get_clearall, h.clean bit hbit, Bool.and_false]
    · refine absurd ?_ hne
      rw [storageOpen_buffer_of_not hi ha]
      simp only [storageOpen, hi, Bool.false_eq_true, if_false, mtdLoad]

theorem tracked_writeBlock (h : Tracked s) {loc : UInt16} {src : List UInt8}
    (hw : EndsInside s (.write loc src)) : Tracked (writeBlock s loc src) := by
  obtain ⟨hr, hend⟩ := hw
  rw [writeBlock, outOfRange_ofNat hr, if_neg (by simp)]
  split_ifs with hsame
  · exact h
  · have hlt : loc.toNat + src.length < storageSize := lt_of_le_of_ne hr fun he => hsame (hend he)
    have hmod : src.length % 2 ^ 16 = src.length := by
      simp only [storageSize] at hr
      exact Nat.mod_eq_of_lt (by omega)
    have hopen := tracked_storageOpen h
    simp only [hmod]
    refine ⟨?_, fun bit hbit => ?_, fun _ a ha hne => ?_⟩
    · simp only [markDirty, numwords_foldl_set]
      exact hopen.numwords
    · simp only [markDirty, get_foldl_set, mem_dirtyLines hlt, hopen.clean bit hbit, Bool.or_false,
        decide_eq_false_iff_not, not_and, not_le]
      simp only [numLines, storageSize, lineSize] at hbit hlt ⊢
      omega
    · simp only [markDirty, get_foldl_set, mem_dirtyLines hlt, Bool.or_eq_true, decide_eq_true_eq]
      by_cases hin : loc.toNat ≤ a ∧ a < loc.toNat + src.length
      · left
        simp only [lineSize]
        omega
      · right
        refine hopen.dirty (storageOpen_initialised s) a ha ?_
        have hout : Memory.writeBlock (storageOpen s).buffer loc.toNat src a =
            (storageOpen s).buffer a := Memory.writeBlock_apply_out _ (by omega)
        rwa [← hout]

/-! ## Ticks -/

theorem mtdWrite_true (h : line < numLines) : mtdWrite true s line = { s with
    eeprom := Memory.writeBlock s.eeprom (line * lineSize)
      (Memory.readBlock s.buffer (line * lineSize) lineSize)
    dirtyMask := s.dirtyMask.clear line } := by
  simp only [numLines, storageSize, lineSize] at h
  have hofs : line * 512 % 2 ^ 16 = line * 512 := Nat.mod_eq_of_lt (by omega)
  have hwrite : devEepromWrite true s.eeprom (line * 512)
      (Memory.readBlock s.buffer (line * 512) 512) = (512, Memory.writeBlock s.eeprom (line * 512)
        (Memory.readBlock s.buffer (line * 512) 512)) := by
    rw [devEepromWrite, Memory.length_readBlock, eepromSize, if_neg (by omega), if_pos rfl]
  simp only [mtdWrite, lineSize, hofs, hwrite, ne_eq, not_true_eq_false, if_false]

theorem mtdWrite_false : mtdWrite false s line = { s with
    dirtyMask := (s.dirtyMask.clear line).set line } := by
  simp only [mtdWrite, devEepromWrite, Bool.false_eq_true, if_false, ite_self, lineSize]
  rw [if_pos (by decide)]

theorem mem_dirtySet : line ∈ dirtySet s ↔ line < numLines ∧ s.dirtyMask.get line = true := by
  rw [dirtySet, Finset.mem_filter, Finset.mem_range]

theorem Tracked.empty_iff (h : Tracked s) : s.dirtyMask.empty = true ↔ dirtySet s = ∅ := by
  rw [Bitmask.empty_iff, h.numwords, Finset.eq_empty_iff_forall_notMem]
  constructor
  · intro hempty line hline
    rw [mem_dirtySet] at hline
    have hlt : line < 32 * 1 := hline.1.trans (by decide)
    rw [hempty line hlt] at hline
    cases hline.2
  · intro hempty bit _
    by_cases hbit : bit < numLines
    · have hget := hempty bit
      rw [mem_dirtySet] at hget
      simpa [hbit] using hget
    · exact h.clean bit (by omega)

theorem Tracked.timerTick_cases (h : Tracked s) (ok : Bool) :
    (timerTick s ok = s ∧ (s.initialised = true → dirtySet s = ∅)) ∨
      ∃ line ∈ dirtySet s, (∀ line' < line, s.dirtyMask.get line' = false) ∧
        timerTick s ok = mtdWrite ok s line := by
  unfold timerTick
  split_ifs with hidle
  · refine .inl ⟨rfl, fun hi => h.empty_iff.1 ?_⟩
    rwa [hi, Bool.not_true, Bool.false_or] at hidle
  · rcases hfind : (range numLines).find? s.dirtyMask.get with _ | line
    · refine .inl ⟨rfl, fun _ => Finset.eq_empty_iff_forall_notMem.2 fun line hline => ?_⟩
      rw [mem_dirtySet] at hline
      exact find?_eq_none.1 hfind line (mem_range.2 hline.1) hline.2
    · obtain ⟨hget, hmem, hfirst⟩ := find?_range_eq_some.1 hfind
      exact .inr ⟨line, mem_dirtySet.2 ⟨mem_range.1 hmem, hget⟩,
        fun line' hlt => by simpa using hfirst line' hlt, rfl⟩

theorem tracked_mtdWrite (h : Tracked s) (hline : line ∈ dirtySet s) (ok : Bool) :
    Tracked (mtdWrite ok s line) := by
  obtain ⟨hlt, hget⟩ := mem_dirtySet.1 hline
  cases ok with
  | true =>
    rw [mtdWrite_true hlt]
    refine ⟨h.numwords, fun bit hbit => ?_, fun hi a ha hne => ?_⟩
    · rw [Bitmask.get_clear, h.clean bit hbit, Bool.and_false]
    · simp only [Memory.writeBlock_readBlock_apply] at hne
      split_ifs at hne with hin
      · exact absurd rfl hne
      · have hline' : a / lineSize ≠ line := by
          simp only [lineSize] at hin ⊢
          omega
        rw [Bitmask.get_clear, h.dirty hi a ha hne, decide_eq_false hline', Bool.not_false,
          Bool.and_true]
  | false =>
    rw [mtdWrite_false]
    refine ⟨h.numwords, fun bit hbit => ?_, fun hi a ha hne => ?_⟩
    · rw [Bitmask.get_set, Bitmask.get_clear, h.clean bit hbit, Bool.and_false, Bool.or_false,
        decide_eq_false_iff_not]
      omega
    · rw [Bitmask.get_set, Bitmask.get_clear, h.dirty hi a ha hne, Bool.and_true]
      exact Bool.or_not_self _

theorem tracked_step {op : Op} (hw : EndsInside s op) (h : Tracked s) : Tracked (step s op) := by
  cases op with
  | read loc n =>
    simp only [step, readBlock]
    cases outOfRange loc n with
    | true => exact h
    | false => exact tracked_storageOpen h
  | write loc src =>
    exact tracked_writeBlock h hw
  | tick ok =>
    simp only [step]
    obtain ⟨heq, -⟩ | ⟨line, hline, -, heq⟩ := h.timerTick_cases ok
    · rw [heq]
      exact h
    · rw [heq]
      exact tracked_mtdWrite h hline ok

theorem dirtySet_mtdWrite (h : line < numLines) :
    dirtySet (mtdWrite true s line) = (dirtySet s).erase line := by
  ext line'
  rw [mtdWrite_true h, Finset.mem_erase, mem_dirtySet, mem_dirtySet, Bitmask.get_clear]
  simp only [Bool.and_eq_true, Bool.not_eq_true', decide_eq_false_iff_not]
  tauto

theorem dirtySet_ticks (h : Tracked s) (hi : s.initialised = true) {k : ℕ}
    (hk : (dirtySet s).card = k) :
    Tracked ((timerTick · true)^[k] s) ∧ ((timerTick · true)^[k] s).initialised = true ∧
      dirtySet ((timerTick · true)^[k] s) = ∅ := by
  induction k generalizing s with
  | zero => exact ⟨h, hi, Finset.card_eq_zero.1 hk⟩
  | succ k ih =>
    obtain ⟨-, hempty⟩ | ⟨line, hline, -, heq⟩ := h.timerTick_cases true
    · rw [hempty hi] at hk
      cases hk
    · rw [Function.iterate_succ_apply, heq]
      refine ih (tracked_mtdWrite h hline true) hi ?_
      rw [dirtySet_mtdWrite (mem_dirtySet.1 hline).1, Finset.card_erase_of_mem hline, hk]
      rfl

end Steps

theorem tracked_fresh (eeprom : ℕ → UInt8) : Tracked (fresh eeprom) where
  numwords := rfl
  clean _ _ := Bitmask.get_of_bits_eq_zero rfl
  dirty hi := by cases hi

/-- Only lines are marked; once the storage is open those that differ from the EEPROM are, and as
many ticks bring it up to date. -/
theorem dirtyMask_tracks_buffer {eeprom : ℕ → UInt8} {ops : List Op} {s : State}
    (h : Along step EndsInside (fresh eeprom) ops) (hs : s = run step (fresh eeprom) ops) :
    (∀ bit, numLines ≤ bit → s.dirtyMask.get bit = false) ∧
    (s.initialised = true →
      (∀ line < numLines, (∃ a, line * lineSize ≤ a ∧ a < line * lineSize + lineSize ∧
        s.buffer a ≠ s.eeprom a) → s.dirtyMask.get line = true) ∧
      ((timerTick · true)^[(dirtySet s).card] s).dirtyMask.empty = true ∧
      ∀ a < storageSize, ((timerTick · true)^[(dirtySet s).card] s).eeprom a =
        ((timerTick · true)^[(dirtySet s).card] s).buffer a) := by
  have hrun : Tracked s := by
    rw [hs]
    exact h.invariant (fun _ op hw ht => @tracked_step _ op hw ht) (tracked_fresh eeprom)
  refine ⟨hrun.clean, fun hi => ⟨?_, ?_⟩⟩
  · rintro line hline ⟨a, h₁, h₂, hne⟩
    simp only [numLines, storageSize, lineSize] at hline h₁ h₂
    have hget := hrun.dirty hi a (by simp only [storageSize]; omega) hne
    rwa [lineSize, show a / 512 = line by omega] at hget
  · obtain ⟨htracked, hi', hempty⟩ := dirtySet_ticks hrun hi rfl
    refine ⟨htracked.empty_iff.2 hempty, fun a ha => ?_⟩
    by_contra hne
    have hget := htracked.dirty hi' a ha (Ne.symm hne)
    have hmem : a / lineSize ∈ dirtySet ((timerTick · true)^[(dirtySet s).card] s) := by
      refine mem_dirtySet.2 ⟨?_, hget⟩
      simp only [numLines, storageSize, lineSize] at ha ⊢
      omega
    rw [hempty] at hmem
    cases hmem

/-- A write and a tick that fails meet the condition. -/
theorem dirtyMask_tracks_buffer_written :
    ∃ s, s = run step (fresh fun _ => 0) [.write 5 [1], .tick false] ∧
      ((timerTick · true)^[(dirtySet s).card] s).dirtyMask.empty = true := by
  refine ⟨_, rfl, ((dirtyMask_tracks_buffer ?_ rfl).2 ?_).2.1⟩
  · simp only [along_cons, along_nil, EndsInside, and_true]
    decide
  · decide

theorem timerTick_keeps_bit {s : State} (h : s.dirtyMask.get numLines = true) :
    (timerTick s true).dirtyMask.get numLines = true := by
  unfold timerTick
  split_ifs
  · exact h
  · rcases hfind : (range numLines).find? s.dirtyMask.get with _ | line
    · exact h
    · have hline := mem_range.1 (mem_of_find?_eq_some hfind)
      simp only [mtdWrite_true hline, Bitmask.get_clear, h, Bool.and_true,
        decide_eq_false hline.ne', Bool.not_false]

/-- After a change of the last byte, the bit of a line after the last one is never cleared. -/
theorem dirtyMask_keeps_bit :
    (run step (fresh fun _ => 0) [.write 6143 [1]]).dirtyMask.get numLines = true ∧
      ∀ k, ((timerTick · true)^[k]
        (run step (fresh fun _ => 0) [.write 6143 [1]])).dirtyMask.get numLines = true := by
  have hset : (run step (fresh fun _ => 0) [.write 6143 [1]]).dirtyMask.get numLines = true := by
    decide
  refine ⟨hset, fun k => ?_⟩
  induction k with
  | zero => exact hset
  | succ k ih =>
    rw [Function.iterate_succ_apply']
    exact timerTick_keeps_bit ih

end Tm4cPilot.Px4Storage
