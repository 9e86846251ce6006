import Tm4cPilot.Param.Save
import Tm4cPilot.Px4Storage.Torn

/-!
# Records that power loss tears apart

`save` writes through `StorageAccess` into the buffer of `PX4Storage`, which ticks bring to the
EEPROM line by line. A header in two lines can end as the old sentinal.
-/

namespace Tm4cPilot.Param

open List StorageManager Memory ParamHeader UInt16
open Px4Storage (Op Interleaved Synced torn stage version nextLine lineSize storageSize)
open Run (run)

/-- The layout of the vehicle. -/
def boardLayout (copter : Bool) : Layout :=
  if copter then StorageManager.layoutCopter .four else StorageManager.layoutDefault .four

theorem size_boardLayout_le (copter : Bool) : size (boardLayout copter) .param ≤ 1536 := by
  cases copter <;> decide

theorem exists_areas (copter : Bool) : ∃ areas,
    (boardLayout copter).areas = ⟨.param, 0, size (boardLayout copter) .param⟩ :: areas ∧
      ∀ area ∈ areas, area.type ≠ .param := by
  cases copter <;> exact ⟨_, rfl, by decide⟩

variable {copter : Bool} {a : ℕ}

theorem view_boardLayout (storage : ℕ → UInt8) (h : a < size (boardLayout copter) .param) :
    view (boardLayout copter) .param storage a = storage a := by
  obtain ⟨areas, hareas, -⟩ := exists_areas copter
  unfold view
  rw [hareas, locate, if_neg (by simp), if_neg (by simpa using h)]
  rfl

theorem blocks_of_ne {areas : List StorageManager.StorageArea} (h : ∀ area ∈ areas, area.type ≠ .param)
    (addr n : ℕ) : blocks .param areas addr n = ([], n) := by
  induction areas generalizing addr n with
  | nil => rfl
  | cons area areas ih =>
    rw [blocks, if_pos (h area (.head _)), ih fun area' h' => h area' (.tail _ h')]

theorem blocks_boardLayout {addr n : ℕ} (hn : n < 256)
    (h : addr < size (boardLayout copter) .param) :
    (blocks .param (boardLayout copter).areas addr n).1 =
      [(addr, min n (size (boardLayout copter) .param - addr))] := by
  obtain ⟨areas, hareas, hrest⟩ := exists_areas copter
  have hcount : count addr n (size (boardLayout copter) .param) =
      min n (size (boardLayout copter) .param - addr) := by
    rw [count_of_lt hn]
    split_ifs <;> omega
  rw [hareas, blocks, if_neg (by simp), if_neg (by simpa using h)]
  simp only [hcount, blocks_of_ne hrest]
  split_ifs <;> rfl

/-- The `hal.storage->write_block` calls of an access. -/
def halWriteBlocks : List (ℕ × ℕ) → List UInt8 → List Op
  | [], _ => []
  | b :: bs, data => .write (UInt16.ofNat b.1) (data.take b.2) :: halWriteBlocks bs (data.drop b.2)

/-- The calls of `hal.storage->write_block`. -/
def halWrites (layout : Layout) (w : Write) : List Op :=
  halWriteBlocks (StorageManager.blocks .param layout.areas w.ofs w.data.length).1 w.data

theorem halWrites_boardLayout {w : Write} (hlen : w.data.length < 256)
    (h : w.ofs + w.data.length < size (boardLayout copter) .param) :
    halWrites (boardLayout copter) w = [.write (UInt16.ofNat w.ofs) w.data] := by
  rw [halWrites, blocks_boardLayout hlen (by omega), min_eq_left (by omega), halWriteBlocks,
    halWriteBlocks, take_length]

/-- The buffer of `PX4Storage` after a reboot. -/
def rebooted (eeprom : ℕ → UInt8) : ℕ → UInt8 :=
  (Px4Storage.storageOpen (Px4Storage.fresh eeprom)).buffer

theorem view_rebooted (eeprom : ℕ → UInt8) (h : a < size (boardLayout copter) .param) :
    view (boardLayout copter) .param (rebooted eeprom) a = eeprom a := by
  have hle := size_boardLayout_le copter
  rw [view_boardLayout _ h]
  exact Px4Storage.storageOpen_buffer_of_not rfl (by
    simp only [storageSize]
    omega)

/-! ## Torn headers -/

variable {m : ℕ → UInt8}

theorem holds_iff {ofs : ℕ} {l : List UInt8} :
    Holds m ofs l ↔ ∀ i (h : i < l.length), m (ofs + i) = l[i] :=
  readBlock_eq_iff rfl

theorem holds_torn {low high : ℕ → UInt8} {l l' : List UInt8} (hl : Holds low a l)
    (hl' : Holds high a l') (hlen : l'.length = l.length)
    (hm : ∀ b, a ≤ b → b < a + l.length → m b = torn a low high b) :
    Holds m a (l.take (nextLine a - a) ++ l'.drop (nextLine a - a)) := by
  rw [holds_iff] at *
  intro i hi
  simp only [length_append, length_take, length_drop] at hi
  rw [hm _ (by omega) (by omega)]
  unfold torn
  by_cases hlow : a + i < nextLine a
  · rw [if_pos hlow, hl i (by omega), getElem_append_left (by simp; omega), getElem_take]
  · rw [if_neg hlow, hl' i (by omega), getElem_append_right (by simp; omega), getElem_drop]
    congr 1
    simp only [length_take]
    omega

theorem headerAt_type (m : ℕ → UInt8) (ofs : ℕ) :
    ((headerAt m ofs).type : ℕ) = (m (ofs + 1)).toNat % 32 := by
  have hbytes : readBlock m ofs 4 = [m ofs, m (ofs + 1), m (ofs + 2), m (ofs + 3)] := rfl
  have h₀ := (m ofs).toNat_lt
  rw [headerAt, hbytes]
  simp only [ofWord, Fin.val_ofNat, ofBytes_cons, ofBytes_nil]
  omega

theorem isSentinal_headerAt {ofs : ℕ} (h : m (ofs + 1) = 0xFF) :
    isSentinal (headerAt m ofs) = true := by
  have htype : (headerAt m ofs).type = 0x1F := by
    rw [Fin.ext_iff, headerAt_type, h]
    rfl
  rw [isSentinal, decide_eq_true_eq]
  exact .inl htype

/-- A header of which only the first `d` bytes are written. -/
def tornHeader (phdr : ParamHeader) (d : ℕ) : ParamHeader :=
  .ofWord (ofBytes (phdr.bytes.take d ++ sentinal.bytes.drop d))

theorem tornHeader_of_le (phdr : ParamHeader) {d : ℕ} (h : 4 ≤ d) : tornHeader phdr d = phdr := by
  rw [tornHeader, take_of_length_le (by simpa using h), drop_eq_nil_of_le (by simpa using h),
    append_nil, ofWord_bytes]

theorem bytes_eq (phdr : ParamHeader) : phdr.bytes =
    [UInt8.ofNat (phdr.word % 2 ^ 8), UInt8.ofNat (phdr.word / 2 ^ 8 % 2 ^ 8),
      UInt8.ofNat (phdr.word / 2 ^ 16 % 2 ^ 8), UInt8.ofNat (phdr.word / 2 ^ 24 % 2 ^ 8)] := by
  rw [bytes, toBytes_natCast]
  simp [range_succ]

theorem tornHeader_word (phdr : ParamHeader) :
    tornHeader phdr 1 = .ofWord (phdr.word % 2 ^ 8 + 0x3FFF00) ∧
    tornHeader phdr 2 = .ofWord (phdr.word % 2 ^ 16 + 0x3F0000) ∧
    tornHeader phdr 3 = .ofWord (phdr.word % 2 ^ 24) := by
  have hs : sentinal.bytes = [0xFF, 0xFF, 0x3F, 0] := by decide
  have hbyte : ∀ w : ℕ, (UInt8.ofNat (w % 2 ^ 8)).toNat = w % 2 ^ 8 := fun w => by
    rw [UInt8.toNat_ofNat']
    omega
  unfold tornHeader
  rw [bytes_eq, hs]
  generalize phdr.word = w
  have h₁ : (0xFF : UInt8).toNat = 255 := rfl
  have h₂ : (0x3F : UInt8).toNat = 63 := rfl
  have h₃ : (0 : UInt8).toNat = 0 := rfl
  refine ⟨congrArg ofWord ?_, congrArg ofWord ?_, congrArg ofWord ?_⟩
  · show ofBytes [UInt8.ofNat (w % 2 ^ 8), 0xFF, 0x3F, 0] = _
    rw [ofBytes_cons, ofBytes_cons, ofBytes_cons, ofBytes_cons, ofBytes_nil, hbyte, h₁, h₂, h₃]
    omega
  · show ofBytes [UInt8.ofNat (w % 2 ^ 8), UInt8.ofNat (w / 2 ^ 8 % 2 ^ 8), 0x3F, 0] = _
    rw [ofBytes_cons, ofBytes_cons, ofBytes_cons, ofBytes_cons, ofBytes_nil, hbyte, hbyte, h₂, h₃]
    omega
  · show ofBytes [UInt8.ofNat (w % 2 ^ 8), UInt8.ofNat (w / 2 ^ 8 % 2 ^ 8),
      UInt8.ofNat (w / 2 ^ 16 % 2 ^ 8), 0] = _
    rw [ofBytes_cons, ofBytes_cons, ofBytes_cons, ofBytes_cons, ofBytes_nil, hbyte, hbyte, hbyte, h₃]
    omega

theorem isSentinal_ofWord (w : ℕ) : isSentinal (.ofWord w) = true ↔
    w / 2 ^ 8 % 32 = 31 ∨ w / 2 ^ 13 % 2 * 2 ^ 8 + w % 2 ^ 8 = 511 ∨ w / 2 ^ 14 % 2 ^ 18 = 255 := by
  rw [isSentinal, decide_eq_true_eq, Fin.ext_iff, Fin.ext_iff]
  rfl

/-- A header cut to 14 bits of another group element is the sentinal for its key or for that
element. -/
theorem VarId.exists_low (v : VarId) (h : v.groupElement < 2 ^ 18) :
    ∃ a < 2 ^ 14, v.header.word = a + 2 ^ 14 * v.groupElement ∧ ∀ x < 2 ^ 18,
      isSentinal (.ofWord (a + 2 ^ 14 * x)) = true ↔ v.key.toNat % 512 = 511 ∨ x = 255 := by
  have hcode := v.type.code_lt
  refine ⟨v.key.toNat % 2 ^ 8 + v.type.code * 2 ^ 8 + v.key.toNat / 2 ^ 8 % 2 * 2 ^ 13, by omega,
    ?_, fun x hx => ?_⟩
  · rw [word, header_type, header_groupElement, Nat.mod_eq_of_lt h, mul_comm (2 ^ 14)]
    rfl
  · generalize v.key.toNat = key
    generalize v.type.code = code at *
    rw [isSentinal_ofWord]
    have hgroup : (key % 2 ^ 8 + code * 2 ^ 8 + key / 2 ^ 8 % 2 * 2 ^ 13 + 2 ^ 14 * x) / 2 ^ 14 %
        2 ^ 18 = x := by omega
    omega

theorem isSentinal_tornHeader (v : VarId) (h : v.groupElement < 2 ^ 18) {d : ℕ} (hd : 1 ≤ d) :
    isSentinal (tornHeader v.header d) = true ↔
      d = 1 ∨ (d = 2 ∧ v.groupElement % 4 = 3) ∨ (d = 3 ∧ v.groupElement % 1024 = 255) ∨
        v.key.toNat % 512 = 511 ∨ v.groupElement = 255 := by
  obtain ⟨a, ha, hword, hsentinal⟩ := v.exists_low h
  obtain ⟨h₁, h₂, h₃⟩ := tornHeader_word v.header
  rcases (by omega : d = 1 ∨ d = 2 ∨ d = 3 ∨ 4 ≤ d) with rfl | rfl | rfl | hd
  · rw [h₁, isSentinal_ofWord]
    omega
  · have hw : v.header.word % 2 ^ 16 + 0x3F0000 = a + 2 ^ 14 * (v.groupElement % 4 + 252) := by
      omega
    rw [h₂, hw, hsentinal _ (by omega)]
    omega
  · have hw : v.header.word % 2 ^ 24 = a + 2 ^ 14 * (v.groupElement % 1024) := by omega
    rw [h₃, hw, hsentinal _ (by omega)]
    omega
  · rw [tornHeader_of_le _ hd, v.isSentinal_header h]
    omega

/-- What `save` writes to append a record at `ofs`. -/
def appendWrites (ofs : ℕ) (phdr : ParamHeader) (value : List UInt8) : List Op :=
  [.write (UInt16.ofNat (ofs + 4 + value.length)) sentinal.bytes,
    .write (UInt16.ofNat (ofs + 4)) value, .write (UInt16.ofNat ofs) phdr.bytes]

/-- The area with a new record. -/
def appended (m : ℕ → UInt8) (ofs : ℕ) (phdr : ParamHeader) (value : List UInt8) : ℕ → UInt8 :=
  Memory.writeBlock (Memory.writeBlock (Memory.writeBlock m (ofs + 4 + value.length) sentinal.bytes)
    (ofs + 4) value) ofs phdr.bytes

section Append

variable {m : ℕ → UInt8} {ofs : ℕ} {phdr : ParamHeader} {value : List UInt8}

theorem toNat_ofNat_of_lt {a : ℕ} (h : a < 2 ^ 16) : (UInt16.ofNat a).toNat = a := by
  rw [toNat_ofNat', Nat.mod_eq_of_lt h]

section

variable (h : ofs + value.length + 8 < 2 ^ 16)
include h

theorem within_appendWrites :
    ∀ op ∈ appendWrites ofs phdr value, Px4Storage.Within ofs (ofs + value.length + 8) op := by
  simp only [appendWrites, forall_mem_cons, Px4Storage.Within, length_bytes,
    not_mem_nil, false_imp_iff, implies_true, and_true]
  rw [toNat_ofNat_of_lt (by omega), toNat_ofNat_of_lt (by omega), toNat_ofNat_of_lt (by omega)]
  omega

theorem stage_appendWrites_of_le {i : ℕ} (hi : i ≤ 2) {a : ℕ} (ha : a < ofs + 4) :
    stage m (appendWrites ofs phdr value) i a = m a := by
  have h₁ : (UInt16.ofNat (ofs + 4 + value.length)).toNat = ofs + 4 + value.length :=
    toNat_ofNat_of_lt (by omega)
  have h₂ : (UInt16.ofNat (ofs + 4)).toNat = ofs + 4 := toNat_ofNat_of_lt (by omega)
  have hfirst : Op.apply m (.write (UInt16.ofNat (ofs + 4 + value.length)) sentinal.bytes) a = m a :=
    writeBlock_apply_out _ (by omega)
  rcases (by omega : i = 0 ∨ i = 1 ∨ i = 2) with rfl | rfl | rfl
  · rfl
  · exact hfirst
  · exact (writeBlock_apply_out _ (by omega)).trans hfirst

theorem stage_appendWrites :
    stage m (appendWrites ofs phdr value) 3 = appended m ofs phdr value := by
  show writeBlock (writeBlock (writeBlock m _ _) _ _) _ _ = _
  rw [toNat_ofNat_of_lt (by omega), toNat_ofNat_of_lt (by omega), toNat_ofNat_of_lt (by omega)]
  rfl

theorem version_appendWrites_of_le {old : ℕ → UInt8} (hold : ∀ a < ofs + 4, old a = m a) {i : ℕ}
    (hi : i ≤ 3) {a : ℕ} (ha : a < ofs + 4) :
    version old m (appendWrites ofs phdr value) i a = m a := by
  cases i with
  | zero => exact hold a ha
  | succ i => exact stage_appendWrites_of_le h (by omega) ha

end

theorem appended_of_lt {a : ℕ} (h : a < ofs) : appended m ofs phdr value a = m a := by
  unfold appended
  rw [writeBlock_apply_out _ (by omega), writeBlock_apply_out _ (by omega),
    writeBlock_apply_out _ (by omega)]

theorem holds_appended_header : Holds (appended m ofs phdr value) ofs phdr.bytes :=
  holds_writeBlock ..

theorem flatMap_halWrites {copter : Bool} (hlen : value.length ≤ 12)
    (h : ofs + value.length + 2 * 4 < size (boardLayout copter) .param) :
    [writeSentinal (ofs + 4 + value.length), ⟨ofs + 4, value⟩, ⟨ofs, phdr.bytes⟩].flatMap
      (halWrites (boardLayout copter)) = appendWrites ofs phdr value := by
  simp only [flatMap_cons, flatMap_nil, append_nil, writeSentinal]
  rw [halWrites_boardLayout, halWrites_boardLayout, halWrites_boardLayout]
  · rfl
  all_goals
    simp only [length_bytes]
    omega

end Append

end Tm4cPilot.Param
