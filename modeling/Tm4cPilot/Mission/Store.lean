import Tm4cPilot.Mission.Model

/-!
# The commands in storage

The area starts with a version word. The commands follow in slots of 15 bytes, whose addresses are
computed in 16 bits.
-/

namespace Tm4cPilot.Mission

open List StorageManager Memory Param Nat

/-- Bytes over an old content. -/
def Content.over (content : Content) (bytes : List UInt8) : Content :=
  ⟨(bytes ++ content.bytes.drop bytes.length).take 12, by
    simp only [length_take, length_append, length_drop, content.length_bytes]
    omega⟩

/-- The address of a slot. -/
def posInStorage (index : ℕ) : ℕ := (4 + index * 15) % 2 ^ 16

section Access

-- `stack` is what the memory of uninitialised locals holds.
variable (layout : Layout) (storage : ℕ → UInt8) (stack : ℕ → UInt8)

/-- The `n` bytes at `ofs` of a slot. -/
def readField (pos ofs n : ℕ) : List UInt8 :=
  let bytes := (StorageManager.readBlock layout .mission storage ((pos + ofs) % 2 ^ 16) n).2
  bytes ++ (Memory.readBlock stack ofs n).drop bytes.length

def readByte (pos ofs : ℕ) : UInt8 := .ofNat (ofBytes (readField layout storage stack pos ofs 1))

def readUint16 (pos ofs : ℕ) : UInt16 :=
  .ofNat (ofBytes (readField layout storage stack pos ofs 2))

/-- The `n` bytes at `ofs` of a slot, read into a content. -/
def readContent (pos ofs n : ℕ) (content : Content) : Content :=
  content.over (StorageManager.readBlock layout .mission storage ((pos + ofs) % 2 ^ 16) n).2

/-- Read the slot at `pos` over the content of an old command. -/
def readSlot (pos : ℕ) (old : Content) : Slot :=
  let b1 := readByte layout storage stack pos 0
  if b1 = 0 then
    ⟨readUint16 layout storage stack pos 1, readUint16 layout storage stack pos 3,
      readContent layout storage pos 5 10 old⟩
  else
    ⟨b1.toUInt16, readUint16 layout storage stack pos 1, readContent layout storage pos 3 12 old⟩

/-- The answer and the command, which is `old` on failure. -/
def readCmdFromStorage (cmdTotal : ℕ) (home : Content) (index : ℕ) (old : Command) :
    Bool × Command :=
  if index ≥ cmdTotal ∧ index ≠ 0 then (false, old)
  else if index = 0 then (true, ⟨⟨navWaypoint, 0, home⟩, 0⟩)
  else (true, ⟨readSlot layout storage stack (posInStorage index) old.content, index⟩)

def numCommandsMax : ℕ := (StorageManager.size layout .mission - 4) / 15

/-- The writes of a command. -/
def slotWrites (pos : ℕ) (cmd : Slot) : List (ℕ × List UInt8) :=
  if cmd.id < 256 then
    [(pos, [cmd.id.toUInt8]), ((pos + 1) % 2 ^ 16, toBytes 2 cmd.p1.toNat),
      ((pos + 3) % 2 ^ 16, cmd.content.bytes)]
  else
    [(pos, [0]), ((pos + 1) % 2 ^ 16, toBytes 2 cmd.id.toNat),
      ((pos + 3) % 2 ^ 16, toBytes 2 cmd.p1.toNat),
      ((pos + 5) % 2 ^ 16, cmd.content.bytes.take 10)]

def writeCmdToStorage (index : ℕ) (cmd : Slot) : Bool × (ℕ → UInt8) :=
  if index ≥ numCommandsMax layout then (false, storage)
  else
    (true, (slotWrites (posInStorage index) cmd).foldl
      (fun s w => (StorageManager.writeBlock layout .mission s w.1 w.2).2) storage)

/-- The version word. -/
def eepromVersion : ℕ :=
  ofBytes (readField layout storage stack 0 0 4)

end Access

/-- The bytes of the slot, with all content for an 8 bit id. -/
def Slot.bytes (cmd : Slot) : List UInt8 :=
  if cmd.id < 256 then cmd.id.toUInt8 :: (toBytes 2 cmd.p1.toNat ++ cmd.content.bytes)
  else 0 :: (toBytes 2 cmd.id.toNat ++ (toBytes 2 cmd.p1.toNat ++ cmd.content.bytes.take 10))

theorem Slot.length_bytes (cmd : Slot) : cmd.bytes.length = 15 := by
  unfold Slot.bytes
  split_ifs <;> simp [cmd.content.length_bytes]

variable {layout : Layout} {storage : ℕ → UInt8} {i : ℕ}

/-- The area of the mission. -/
def bytesOf (layout : Layout) (storage : ℕ → UInt8) : ℕ → UInt8 :=
  StorageManager.view layout .mission storage

theorem posInStorage_of_lt (h : i < numCommandsMax layout) :
    posInStorage i = 4 + i * 15 ∧ 4 + i * 15 + 15 ≤ size layout .mission := by
  have hsize := size_lt layout .mission
  unfold numCommandsMax at h
  unfold posInStorage
  omega

/-- Writes one behind the other, the first at `pos`. -/
def Consecutive : ℕ → List (ℕ × List UInt8) → Prop
  | _, [] => True
  | pos, w :: writes => w.1 = pos ∧ Consecutive (pos + w.2.length) writes

theorem bytesOf_foldl {writes : List (ℕ × List UInt8)} {pos : ℕ} (h : Consecutive pos writes)
    (hsize : pos + (writes.flatMap Prod.snd).length ≤ size layout .mission)
    (hlen : (writes.flatMap Prod.snd).length < 256) {a : ℕ} (ha : a < size layout .mission) :
    bytesOf layout (writes.foldl
      (fun s w => (writeBlock layout .mission s w.1 w.2).2) storage) a =
        Memory.writeBlock (bytesOf layout storage) pos (writes.flatMap Prod.snd) a := by
  induction writes generalizing pos storage with
  | nil => rw [flatMap_nil, writeBlock_nil, foldl_nil]
  | cons w writes ih =>
    obtain ⟨rfl, hrest⟩ := h
    rw [flatMap_cons, length_append] at hsize hlen
    rw [foldl_cons, ih hrest (by omega) (by omega), flatMap_cons, writeBlock_append]
    exact writeBlock_congr (view_writeBlock (by omega) (by omega) ha) _ _

theorem flatMap_slotWrites (pos : ℕ) (cmd : Slot) :
    (slotWrites pos cmd).flatMap Prod.snd = cmd.bytes := by
  unfold slotWrites Slot.bytes
  split_ifs <;> simp

theorem consecutive_slotWrites {pos : ℕ} (h : pos + 15 ≤ 2 ^ 16) (cmd : Slot) :
    Consecutive pos (slotWrites pos cmd) := by
  unfold slotWrites
  split_ifs <;> simp only [Consecutive, length_singleton, length_toBytes, true_and,
    and_true] <;> omega

theorem bytesOf_writeCmdToStorage (h : i < numCommandsMax layout) (cmd : Slot) {a : ℕ}
    (ha : a < size layout .mission) :
    bytesOf layout (writeCmdToStorage layout storage i cmd).2 a =
      Memory.writeBlock (bytesOf layout storage) (4 + i * 15) cmd.bytes a := by
  obtain ⟨hpos, hsize⟩ := posInStorage_of_lt h
  have hlt := size_lt layout .mission
  rw [writeCmdToStorage, if_neg (not_le.2 h), hpos, bytesOf_foldl
    (consecutive_slotWrites (by omega) cmd) ?_ ?_ ha, flatMap_slotWrites]
  · rwa [flatMap_slotWrites, cmd.length_bytes]
  · rw [flatMap_slotWrites, cmd.length_bytes]
    decide

/-! ## Reading -/

section Read

variable (stack : ℕ → UInt8) (pos ofs : ℕ) {bytes : List UInt8}

section

variable (h : Memory.Holds (bytesOf layout storage) (pos + ofs) bytes)
  (hn : bytes.length < 256) (hsize : pos + ofs + bytes.length ≤ size layout .mission)

include h hn hsize

theorem readBlock_of_holds :
    (readBlock layout .mission storage ((pos + ofs) % 2 ^ 16) bytes.length).2 =
      bytes := by
  have hlt := size_lt layout .mission
  rw [mod_eq_of_lt (by omega), readBlock_snd hn, min_eq_left (by omega)]
  exact h

theorem readField_of_holds : readField layout storage stack pos ofs bytes.length = bytes := by
  simp only [readField, readBlock_of_holds pos ofs h hn hsize]
  rw [drop_eq_nil_of_le (by simp), append_nil]

end

theorem readByte_of_holds {b : UInt8} (h : Memory.Holds (bytesOf layout storage) (pos + ofs) [b])
    (hsize : pos + ofs + 1 ≤ size layout .mission) : readByte layout storage stack pos ofs = b := by
  have hfield := readField_of_holds stack pos ofs h (by simp) (by simpa using hsize)
  rw [length_singleton] at hfield
  rw [readByte, hfield, ofBytes_cons, ofBytes_nil, mul_zero, add_zero,
    UInt8.ofNat_toNat]

theorem readUint16_of_holds {w : UInt16}
    (h : Memory.Holds (bytesOf layout storage) (pos + ofs) (toBytes 2 w.toNat))
    (hsize : pos + ofs + 2 ≤ size layout .mission) :
    readUint16 layout storage stack pos ofs = w := by
  have hfield := readField_of_holds stack pos ofs h (by simp) (by simpa using hsize)
  rw [length_toBytes] at hfield
  rw [readUint16, hfield, ofBytes_toBytes 2 w.toNat w.toNat_lt, UInt16.ofNat_toNat]

end Read

theorem Content.over_self (content : Content) (bytes : List UInt8) (h : bytes.length = 12) :
    content.over bytes = ⟨bytes, h⟩ := by
  simp [Content.over, h]

theorem Content.take_over (content : Content) {n : ℕ} {bytes : List UInt8}
    (h : bytes.length = n ∧ n ≤ 12) : (content.over bytes).bytes.take n = bytes := by
  rw [Content.over, take_take, min_eq_left h.2, ← h.1, take_left]

theorem readSlot_of_holds (stack : ℕ → UInt8) {pos : ℕ} {cmd : Slot}
    (h : Memory.Holds (bytesOf layout storage) pos cmd.bytes)
    (hsize : pos + 15 ≤ size layout .mission) (hid : 1 ≤ cmd.id) (old : Content) :
    readSlot layout storage stack pos old =
      ⟨cmd.id, cmd.p1,
        if cmd.id < 256 then cmd.content else old.over (cmd.content.bytes.take 10)⟩ := by
  have hid : 1 ≤ cmd.id.toNat := UInt16.le_iff_toNat_le.1 hid
  have hlen := cmd.content.length_bytes
  by_cases hsmall : cmd.id < 256
  · have hsmall' : cmd.id.toNat < 256 := UInt16.lt_iff_toNat_lt.1 hsmall
    rw [Slot.bytes, if_pos hsmall, ← singleton_append, holds_append,
      holds_append, length_singleton, length_toBytes] at h
    obtain ⟨hb, hp, hc⟩ := h
    have hbyte := readByte_of_holds stack pos 0 hb (by omega)
    have hne : cmd.id.toUInt8 ≠ 0 := by
      intro h0
      have := congrArg UInt8.toNat h0
      simp at this
      omega
    have hwide : cmd.id.toUInt8.toUInt16 = cmd.id := by
      rw [← UInt16.toNat_inj, UInt8.toNat_toUInt16, UInt16.toNat_toUInt8]
      omega
    have hcontent : readContent layout storage pos 3 12 old = cmd.content := by
      have := readBlock_of_holds pos 3 hc (by omega) (by omega)
      rw [hlen] at this
      rw [readContent, this, Content.over_self _ _ hlen]
    rw [readSlot, hbyte, if_pos hsmall]
    simp only [if_neg hne, hwide, hcontent, readUint16_of_holds stack pos 1 hp (by omega)]
  · rw [Slot.bytes, if_neg hsmall, ← singleton_append, holds_append, holds_append,
      holds_append, length_singleton, length_toBytes, length_toBytes] at h
    obtain ⟨hb, hi, hp, hc⟩ := h
    have hlen' : (cmd.content.bytes.take 10).length = 10 := by simp [hlen]
    have hcontent : readContent layout storage pos 5 10 old =
        old.over (cmd.content.bytes.take 10) := by
      have := readBlock_of_holds pos 5 hc (by omega) (by omega)
      rw [hlen'] at this
      rw [readContent, this]
    rw [readSlot, readByte_of_holds stack pos 0 hb (by omega), if_neg hsmall]
    simp only [if_true, hcontent, readUint16_of_holds stack pos 1 hi (by omega),
      readUint16_of_holds stack pos 3 hp (by omega)]

/-! ## The slots as an array -/

theorem readBlock_writeCmdToStorage (h : i < numCommandsMax layout) (cmd : Slot) {base n : ℕ}
    (hn : n < 256) (hout : base + n ≤ 4 + i * 15 ∨ 4 + i * 15 + 15 ≤ base) :
    (readBlock layout .mission (writeCmdToStorage layout storage i cmd).2 base n).2 =
      (readBlock layout .mission storage base n).2 := by
  rw [readBlock_snd hn, readBlock_snd hn]
  refine readBlock_congr fun a h₁ h₂ => ?_
  have hlen := cmd.length_bytes
  refine (bytesOf_writeCmdToStorage h cmd (by omega)).trans (writeBlock_apply_out _ ?_)
  omega

/-- Another slot is out of reach if it is less than 4369 slots further on. -/
theorem readSlot_writeCmdToStorage (h : i < numCommandsMax layout) (hi : 1 ≤ i) (cmd : Slot)
    (stack : ℕ → UInt8) {j : ℕ} (hne : j ≠ i) (hlt : j < i + 4369) (old : Content) :
    readSlot layout (writeCmdToStorage layout storage i cmd).2 stack (posInStorage j) old =
      readSlot layout storage stack (posInStorage j) old := by
  have hsize := (posInStorage_of_lt h).2
  have hsize' := size_lt layout .mission
  have hread : ∀ ofs n, ofs + n ≤ 15 → 1 ≤ n →
      (readBlock layout .mission (writeCmdToStorage layout storage i cmd).2
        ((posInStorage j + ofs) % 2 ^ 16) n).2 =
      (readBlock layout .mission storage ((posInStorage j + ofs) % 2 ^ 16) n).2 := by
    intro ofs n hn hpos
    refine readBlock_writeCmdToStorage h cmd (by omega) ?_
    unfold posInStorage
    obtain hbefore | hbehind := lt_or_gt_of_ne hne
    · rw [mod_eq_of_lt (show 4 + j * 15 < 2 ^ 16 by omega), mod_eq_of_lt (by omega)]
      omega
    · by_cases hwrap : 4 + j * 15 < 2 ^ 16
      · rw [mod_eq_of_lt hwrap]
        by_cases hofs : 4 + j * 15 + ofs < 2 ^ 16
        · omega
        · omega
      · rw [show (4 + j * 15) % 2 ^ 16 = 4 + j * 15 - 2 ^ 16 by omega, mod_eq_of_lt (by omega)]
        omega
  have hbyte : readByte layout (writeCmdToStorage layout storage i cmd).2 stack (posInStorage j) 0 =
      readByte layout storage stack (posInStorage j) 0 := by
    rw [readByte, readByte, readField, readField, hread 0 1 (by decide) le_rfl]
  have hword : ∀ ofs, ofs + 2 ≤ 15 →
      readUint16 layout (writeCmdToStorage layout storage i cmd).2 stack (posInStorage j) ofs =
        readUint16 layout storage stack (posInStorage j) ofs := by
    intro ofs hofs
    rw [readUint16, readUint16, readField, readField, hread ofs 2 hofs (by decide)]
  have hcontent : ∀ ofs n, ofs + n ≤ 15 → 1 ≤ n →
      readContent layout (writeCmdToStorage layout storage i cmd).2 (posInStorage j) ofs n old =
        readContent layout storage (posInStorage j) ofs n old := by
    intro ofs n hn hpos
    rw [readContent, readContent, hread ofs n hn hpos]
  unfold readSlot
  rw [hbyte, hword 1 (by decide), hword 3 (by decide), hcontent 5 10 (by decide) (by decide),
    hcontent 3 12 (by decide) (by decide)]

theorem holds_writeCmdToStorage (storage : ℕ → UInt8) (h : i < numCommandsMax layout) (cmd : Slot) :
    Memory.Holds (bytesOf layout (writeCmdToStorage layout storage i cmd).2) (4 + i * 15)
      cmd.bytes := by
  have hsize := (posInStorage_of_lt h).2
  have hlen := cmd.length_bytes
  exact (holds_writeBlock _ _ _).congr fun a h₁ h₂ =>
    bytesOf_writeCmdToStorage h cmd (by omega)

/-- The content that is stored. -/
def Slot.storedContent (cmd : Slot) : List UInt8 :=
  if cmd.id < 256 then cmd.content.bytes else cmd.content.bytes.take 10

/-- A write to slot `i` is read back and changes nothing else. -/
def ActsAsArray (layout : Layout) (cmdTotal i : ℕ) : Prop :=
  ∀ (storage stack : ℕ → UInt8) (home : Content) (cmd : Slot), 1 ≤ cmd.id →
    let written := (writeCmdToStorage layout storage i cmd).2
    (writeCmdToStorage layout storage i cmd).1 = true ∧
    (∀ old : Command,
      let read := readCmdFromStorage layout written stack cmdTotal home i old
      read.1 = true ∧ read.2.index = i ∧ read.2.id = cmd.id ∧ read.2.p1 = cmd.p1 ∧
        read.2.storedContent = cmd.storedContent) ∧
    (∀ j, j ≠ i → ∀ old : Command,
      readCmdFromStorage layout written stack cmdTotal home j old =
        readCmdFromStorage layout storage stack cmdTotal home j old) ∧
    eepromVersion layout written stack = eepromVersion layout storage stack

theorem posInStorage_wraps (h : i < numCommandsMax layout) :
    posInStorage (i + 4369) = 3 + i * 15 := by
  have hsize := (posInStorage_of_lt h).2
  have hsize' := size_lt layout .mission
  unfold posInStorage
  omega

/-- A command with id 1. -/
def oneCmd : Slot := ⟨1, 0, .zero⟩

theorem readSlot_wraps (h : i < numCommandsMax layout) (stack : ℕ → UInt8) (old : Content) :
    (readSlot layout (fun _ => 0) stack (posInStorage (i + 4369)) old).id = 0 ∧
      (readSlot layout (writeCmdToStorage layout (fun _ => 0) i oneCmd).2 stack
        (posInStorage (i + 4369)) old).id = 1 := by
  obtain ⟨-, hsize⟩ := posInStorage_of_lt h
  have hzeros : ∀ ofs n, Memory.Holds (bytesOf layout fun _ => 0) ofs (replicate n 0) :=
    fun ofs n => by simp [Memory.Holds, bytesOf, view, Memory.readBlock]
  have hbytes : oneCmd.bytes = toBytes 2 (1 : UInt16).toNat ++ replicate 13 0 := by decide
  have hone := holds_writeCmdToStorage (fun _ => 0) h oneCmd
  rw [hbytes, holds_append] at hone
  have hbyte : Memory.Holds (bytesOf layout (writeCmdToStorage layout (fun _ => 0) i oneCmd).2)
      (3 + i * 15 + 0) [0] := by
    refine (hzeros (3 + i * 15) 1).congr fun a h₁ h₂ => ?_
    rw [length_replicate] at h₂
    refine (bytesOf_writeCmdToStorage h oneCmd (by omega)).trans (writeBlock_apply_out _ ?_)
    omega
  rw [posInStorage_wraps h]
  constructor
  · rw [readSlot, readByte_of_holds stack (3 + i * 15) 0 (hzeros _ 1) (by omega), if_pos rfl]
    exact readUint16_of_holds stack (3 + i * 15) 1 (hzeros _ 2) (by omega)
  · rw [readSlot, readByte_of_holds stack (3 + i * 15) 0 hbyte (by omega), if_pos rfl]
    refine readUint16_of_holds stack (3 + i * 15) 1 ?_ (by omega)
    rw [show 3 + i * 15 + 1 = 4 + i * 15 by omega]
    exact hone.1

/-- Slot `i` acts as one of an array exactly when the list ends before the slot whose address wraps
to it. -/
theorem actsAsArray_iff_total {cmdTotal : ℕ} (hi : 1 ≤ i) (hmax : i < numCommandsMax layout)
    (htotal : i < cmdTotal) :
    ActsAsArray layout cmdTotal i ↔ cmdTotal ≤ 4369 + i := by
  obtain ⟨hpos, hsize⟩ := posInStorage_of_lt hmax
  constructor
  · intro hall
    by_contra hgt
    have hother := (hall (fun _ => 0) (fun _ => 0) .zero oneCmd (by decide)).2.2.1 (i + 4369) (by omega)
      default
    have hread : ∀ storage, (readCmdFromStorage layout storage (fun _ => 0) cmdTotal .zero
        (i + 4369) default).2.id =
          (readSlot layout storage (fun _ => 0) (posInStorage (i + 4369)) default).id := by
      intro storage
      rw [readCmdFromStorage, if_neg (by omega), if_neg (by omega)]
      rfl
    have hid := congrArg (fun r : Bool × Command => r.2.id) hother
    simp only [hread] at hid
    obtain ⟨hbefore, hafter⟩ := readSlot_wraps hmax (fun _ => 0) (default : Content)
    rw [hbefore, hafter] at hid
    cases hid
  · intro hle storage stack home cmd hid
    refine ⟨by rw [writeCmdToStorage, if_neg (not_le.2 hmax)], fun old => ?_, fun j hj old => ?_, ?_⟩
    · have hholds := holds_writeCmdToStorage storage hmax cmd
      rw [readCmdFromStorage, if_neg (by omega), if_neg (by omega), hpos,
        readSlot_of_holds stack hholds hsize hid]
      refine ⟨rfl, rfl, rfl, rfl, ?_⟩
      unfold Slot.storedContent
      split_ifs
      · rfl
      · exact Content.take_over old.content (by simp [cmd.content.length_bytes])
    · simp only [readCmdFromStorage]
      split_ifs with hend hzero
      · rfl
      · rfl
      · rw [readSlot_writeCmdToStorage hmax hi cmd stack hj (by omega)]
    · rw [eepromVersion, eepromVersion, readField, readField,
        readBlock_writeCmdToStorage hmax cmd (by decide) (by omega)]

/-- The copter layout of this board, with its 161 slots in use. -/
theorem copter_actsAsArray :
    1 < numCommandsMax (StorageManager.layoutCopter .four) ∧
      ActsAsArray (StorageManager.layoutCopter .four) 161 1 :=
  ⟨by decide, (actsAsArray_iff_total le_rfl (by decide) (by decide)).2 (by decide)⟩

/-- With a total of 4371 commands, writing command 1 changes command 4370. -/
theorem actsAsArray_fails :
    1 < numCommandsMax (StorageManager.layoutCopter .four) ∧
      ¬ActsAsArray (StorageManager.layoutCopter .four) 4371 1 := by
  have hmax : 1 < numCommandsMax (StorageManager.layoutCopter .four) := by decide
  refine ⟨hmax, fun hall => ?_⟩
  have hother := (hall (fun _ => 0) (fun _ => 0) .zero oneCmd (by decide)).2.2.1 4370 (by decide) default
  have hid := congrArg (fun r : Bool × Command => r.2.id) hother
  obtain ⟨hbefore, hafter⟩ := readSlot_wraps hmax (fun _ => 0) (default : Content)
  exact absurd (hafter.symm.trans (hid.trans hbefore)) (by decide)

end Tm4cPilot.Mission
