import Tm4cPilot.Px4Storage.Model

/-!
# Reading back what was written

The storage is meant to behave as an array that starts as the EEPROM.  It does unless the first
write writes zeros over other bytes: `write_block` compares with the buffer before this is loaded.
-/

namespace Tm4cPilot.Px4Storage

open Run Memory

/-- What a call does to the array. -/
def Op.apply (m : ℕ → UInt8) : Op → ℕ → UInt8
  | .read _ _ => m
  | .write loc src => Memory.writeBlock m loc.toNat src
  | .tick _ => m

/-- The array after a run. -/
def contents (eeprom : ℕ → UInt8) (ops : List Op) : ℕ → UInt8 := run Op.apply eeprom ops

/-- Writes are in range, and before the storage is open write no zeros over something else. -/
def WriteSeen (s : State) : Op → Prop
  | .write loc src => loc.toNat + src.length ≤ storageSize ∧
      (s.initialised = false → (∀ b ∈ src, b = 0) →
        ∀ a, loc.toNat ≤ a → a < loc.toNat + src.length → s.eeprom a = 0)
  | _ => True

theorem outOfRange_eq_false {loc : UInt16} {n : UInt32} (h : loc.toNat + n.toNat ≤ storageSize) :
    outOfRange loc n = false := by
  simp only [storageSize] at h
  rw [outOfRange, decide_eq_false_iff_not, ge_iff_le, UInt32.not_le, UInt32.lt_iff_toNat_lt,
    UInt16.toNat_toUInt32, UInt32.toNat_sub, UInt32.toNat_sub]
  have h6144 : (UInt32.ofNat storageSize).toNat = 6144 := by decide
  have h1 : (1 : UInt32).toNat = 1 := rfl
  omega

theorem outOfRange_ofNat {loc : UInt16} {n : ℕ} (h : loc.toNat + n ≤ storageSize) :
    outOfRange loc (UInt32.ofNat n) = false := by
  refine outOfRange_eq_false ?_
  simp only [storageSize] at h ⊢
  rw [UInt32.toNat_ofNat', Nat.mod_eq_of_lt (by omega)]
  exact h

/-! ## The buffer stands for the array -/

/-- The buffer holds the array, or before it is loaded the EEPROM. -/
structure Represents (s : State) (m : ℕ → UInt8) : Prop where
  loaded : s.initialised = true → ∀ a < storageSize, s.buffer a = m a
  unloaded : s.initialised = false → ∀ a < storageSize, s.eeprom a = m a ∧ s.buffer a = 0

section Steps

variable {s : State} {m : ℕ → UInt8}

theorem storageOpen_initialised (s : State) : (storageOpen s).initialised = true := by
  unfold storageOpen
  split_ifs with h
  · exact h
  · rfl

theorem storageOpen_buffer_of_not (h : s.initialised = false) {a : ℕ} (ha : a < storageSize) :
    (storageOpen s).buffer a = s.eeprom a := by
  have hcheck : ¬ (0 % 4 ≠ 0 ∨ storageSize % 4 ≠ 0 ∨ 0 + storageSize > eepromSize) := by decide
  simp only [storageOpen, h, Bool.false_eq_true, if_false, mtdLoad, devEepromRead, if_neg hcheck,
    writeBlock_readBlock_apply]
  rw [if_pos ⟨Nat.zero_le _, by omega⟩]

theorem represents_storageOpen (h : Represents s m) : Represents (storageOpen s) m where
  loaded _ a ha := by
    by_cases hi : s.initialised = true
    · rw [storageOpen, if_pos hi]
      exact h.loaded hi a ha
    · have hi : s.initialised = false := by simpa using hi
      rw [storageOpen_buffer_of_not hi ha]
      exact (h.unloaded hi a ha).1
  unloaded hi := by simp [storageOpen_initialised] at hi

theorem represents_writeBlock (h : Represents s m) {loc : UInt16} {src : List UInt8}
    (hw : WriteSeen s (.write loc src)) :
    Represents (writeBlock s loc src) (Memory.writeBlock m loc.toNat src) := by
  obtain ⟨hr, hzero⟩ := hw
  rw [writeBlock, outOfRange_ofNat hr, if_neg (by simp)]
  split_ifs with hsame
  · rw [hsame]
    refine ⟨fun hi a ha => ?_, fun hi a ha => ⟨?_, (h.unloaded hi a ha).2⟩⟩
    · rw [writeBlock_readBlock_apply, h.loaded hi a ha, ite_self]
    · rw [writeBlock_readBlock_apply]
      split_ifs with hin
      · rw [(h.unloaded hi a ha).2]
        refine hzero hi (fun b hb => ?_) a hin.1 hin.2
        rw [hsame, Memory.readBlock, List.mem_map] at hb
        obtain ⟨i, hlt, rfl⟩ := hb
        rw [List.mem_range] at hlt
        exact (h.unloaded hi _ (by omega)).2
      · exact (h.unloaded hi a ha).1
  · refine ⟨fun _ a ha => ?_, fun hi => ?_⟩
    · have hs := (represents_storageOpen h).loaded (storageOpen_initialised s) a ha
      by_cases hin : loc.toNat ≤ a ∧ a < loc.toNat + src.length
      · rw [writeBlock_apply_in m hin.1 (by omega)]
        exact writeBlock_apply_in _ hin.1 (by omega)
      · rw [writeBlock_apply_out m (by omega), ← hs]
        exact writeBlock_apply_out _ (by omega)
    · have hopen := storageOpen_initialised s
      simp only [markDirty] at hi
      rw [hopen] at hi
      cases hi

theorem timerTick_of_not (h : s.initialised = false) (ok : Bool) : timerTick s ok = s := by
  rw [timerTick, h, Bool.not_false, Bool.true_or, if_pos rfl]

theorem timerTick_buffer (s : State) (ok : Bool) : (timerTick s ok).buffer = s.buffer := by
  unfold timerTick
  split_ifs
  · rfl
  · cases (List.range numLines).find? s.dirtyMask.get with
    | none => rfl
    | some i => rfl

theorem timerTick_initialised (s : State) (ok : Bool) :
    (timerTick s ok).initialised = s.initialised := by
  unfold timerTick
  split_ifs
  · rfl
  · cases (List.range numLines).find? s.dirtyMask.get with
    | none => rfl
    | some i => rfl

theorem represents_timerTick (h : Represents s m) (ok : Bool) : Represents (timerTick s ok) m where
  loaded hi a ha := by
    rw [timerTick_initialised] at hi
    rw [timerTick_buffer]
    exact h.loaded hi a ha
  unloaded hi := by
    rw [timerTick_initialised] at hi
    rw [timerTick_of_not hi]
    exact h.unloaded hi

theorem represents_step {op : Op} (hw : WriteSeen s op) (h : Represents s m) :
    Represents (step s op) (op.apply m) := by
  cases op with
  | read loc n =>
    simp only [step, readBlock, Op.apply]
    cases outOfRange loc n with
    | true => exact h
    | false => exact represents_storageOpen h
  | write loc src =>
    exact represents_writeBlock h hw
  | tick ok => exact represents_timerTick h ok

end Steps

theorem represents_fresh (eeprom : ℕ → UInt8) : Represents (fresh eeprom) eeprom where
  loaded hi := by cases hi
  unloaded _ _ _ := ⟨rfl, rfl⟩

/-- A read in range delivers the bytes last written, and those of the EEPROM where none were. -/
theorem readBlock_delivers_contents {eeprom : ℕ → UInt8} {ops : List Op}
    (h : Along step WriteSeen (fresh eeprom) ops) {loc : UInt16} {n : UInt32}
    (hr : loc.toNat + n.toNat ≤ storageSize) :
    (readBlock (run step (fresh eeprom) ops) loc n).2 =
      some (Memory.readBlock (contents eeprom ops) loc.toNat n.toNat) := by
  have hrun : Represents (run step (fresh eeprom) ops) (contents eeprom ops) :=
    h.simulation (fun _ _ op hw hs => @represents_step _ _ op hw hs) (represents_fresh eeprom)
  rw [readBlock, outOfRange_eq_false hr, if_neg (by simp), Option.some_inj]
  refine Memory.readBlock_congr fun a h₁ h₂ => ?_
  exact (represents_storageOpen hrun).loaded (storageOpen_initialised _) a (by omega)

/-- A write and a tick before the first read meet the condition. -/
theorem readBlock_delivers_contents_written :
    (readBlock (run step (fresh fun _ => 7) [.write 5 [1, 0], .tick true]) 4 3).2 =
      some (Memory.readBlock (contents (fun _ => 7) [.write 5 [1, 0], .tick true]) 4 3) := by
  refine readBlock_delivers_contents ?_ (by decide)
  refine along_cons.2 ⟨⟨by decide, fun _ h => ?_⟩, along_cons.2 ⟨trivial, along_nil _ _ _⟩⟩
  exact absurd (h 1 (by simp)) (by decide)

/-- Over an EEPROM that holds 7, write a zero as the first access and read it back. -/
theorem readBlock_misses_zero :
    (readBlock (run step (fresh fun _ => 7) [.write 0 [0]]) 0 1).2 = some [7] ∧
      Memory.readBlock (contents (fun _ => 7) [.write 0 [0]]) 0 1 = [0] := by
  refine ⟨?_, by decide⟩
  refine congrArg some ((Memory.readBlock_eq_iff (by rfl)).2 fun i hi => ?_)
  obtain rfl : i = 0 := by simpa using hi
  exact storageOpen_buffer_of_not rfl (by decide)

end Tm4cPilot.Px4Storage
