import Mathlib.Data.Rat.Defs
import Tm4cPilot.Param.Table
import Tm4cPilot.StorageManager.View

/-!
# The parameters in storage

The area starts with an `EEPROM_header`. Records follow, each a `Param_header` and the bytes of the
variable, up to a header that counts as the sentinal.
-/

namespace Tm4cPilot.Param

open StorageManager (Layout)

/-- The bit fields as a number. -/
def ParamHeader.word (phdr : ParamHeader) : ℕ :=
  phdr.keyLow + phdr.type * 2 ^ 8 + phdr.keyHigh * 2 ^ 13 + phdr.groupElement * 2 ^ 14

/-- The bit fields of a number. -/
def ParamHeader.ofWord (w : ℕ) : ParamHeader :=
  ⟨Fin.ofNat _ w, Fin.ofNat _ (w / 2 ^ 8), Fin.ofNat _ (w / 2 ^ 13), Fin.ofNat _ (w / 2 ^ 14)⟩

/-- The lowest byte comes first. -/
def ofBytes (bytes : List UInt8) : ℕ := bytes.foldr (fun b n => b.toNat + 2 ^ 8 * n) 0

/-- The lowest `n` bytes, in two's complement. -/
def toBytes (n : ℕ) (z : ℤ) : List UInt8 :=
  (List.range n).map fun i => UInt8.ofNat (z / 2 ^ (8 * i) % 2 ^ 8).toNat

/-- The header in storage. -/
def ParamHeader.bytes (phdr : ParamHeader) : List UInt8 := toBytes 4 phdr.word

/-- `set_key` with the other fields cut to their bits. -/
def VarId.header (v : VarId) : ParamHeader :=
  ⟨Fin.ofNat _ v.key.toNat, Fin.ofNat _ v.type.code, Fin.ofNat _ (v.key.toNat / 2 ^ 8),
    Fin.ofNat _ v.groupElement⟩

/-- The header with `_sentinal_key`, `_sentinal_type` and `_sentinal_group` -/
def sentinal : ParamHeader := ⟨0xFF, 0x1F, 1, 0xFF⟩

def isSentinal (phdr : ParamHeader) : Bool :=
  phdr.type = 0x1F ∨ phdr.getKey = 0x1FF ∨ phdr.groupElement = 0xFF

/-- The magic numbers and the revision. -/
def eepromHeader : List UInt8 := [0x50, 0x41, 6, 0]

section Scan

-- `stack` is what the memory of an uninitialised local header holds.
variable (layout : Layout) (storage : ℕ → UInt8) (stack : ParamHeader)

/-- A header is read over an old one, as far as the area goes. -/
def readHeader (phdr : ParamHeader) (ofs : ℕ) : ParamHeader :=
  let bytes := (StorageManager.readBlock layout .param storage ofs 4).2
  .ofWord (ofBytes (bytes ++ phdr.bytes.drop bytes.length))

/-- The loop of `scan`. -/
def scanFrom (target : ParamHeader) : ℕ → ParamHeader → ℕ → Bool × ℕ
  | 0, _, _ => (false, 0xFFFF)
  | fuel + 1, phdr, ofs =>
    if ofs < StorageManager.size layout .param then
      let phdr := readHeader layout storage phdr ofs
      if phdr.type = target.type ∧ phdr.getKey = target.getKey ∧
          phdr.groupElement = target.groupElement then (true, ofs)
      else if isSentinal phdr then (false, ofs)
      else scanFrom target fuel phdr (ofs + (typeSize phdr.type + 4))
    else (false, 0xFFFF)

/-- `scan`: was it found, and where? -/
def scan (target : ParamHeader) : Bool × ℕ :=
  scanFrom layout storage target (StorageManager.size layout .param) stack 4

end Scan

/-- The value of a single, `none` for infinities and NaN. -/
def Single.toRat (w : Single) : Option ℚ :=
  let e := w.toNat / 2 ^ 23 % 2 ^ 8
  let m : ℕ := w.toNat % 2 ^ 23
  if e = 255 then none
  else
    let a : ℚ := if e = 0 then (m : ℚ) / 2 ^ 149 else (2 ^ 23 + m) * 2 ^ e / 2 ^ 150
    some (if w.toNat / 2 ^ 31 = 1 then -a else a)

/-- Towards zero, saturating, NaN to zero. -/
def Single.toInt32 (w : Single) : ℤ :=
  match w.toRat with
  | some q => max (-2 ^ 31) (min (2 ^ 31 - 1) (q.num.tdiv q.den))
  | none =>
    if w.toNat % 2 ^ 23 ≠ 0 then 0
    else if w.toNat / 2 ^ 31 = 1 then -2 ^ 31 else 2 ^ 31 - 1

/-- The bytes as a signed number. -/
def toInt (bytes : List UInt8) : ℤ :=
  if ofBytes bytes < 2 ^ (8 * bytes.length - 1) then ofBytes bytes
  else ofBytes bytes - 2 ^ (8 * bytes.length)

/-- `cast_to_float`, `none` when it is not a number. -/
def castToFloat (type : VarType) (bytes : List UInt8) : Option ℚ :=
  match type with
  | .int8 | .int16 | .int32 => some (toInt bytes)
  | .float => Single.toRat (.ofNat (ofBytes bytes))
  | .vector3f => none

/-- `set_value`, which leaves vectors alone. -/
def setValue (type : VarType) (value : Single) : Option (List UInt8) :=
  match type with
  | .int8 | .int16 | .int32 => some (toBytes (typeSize type.code) value.toInt32)
  | .float => some (toBytes 4 value.toNat)
  | .vector3f => none

/-- `is_equal`: closer than `FLT_EPSILON` -/
def isEqual (v₁ v₂ : ℚ) : Bool := |v₁ - v₂| < 1 / 2 ^ 23

/-- Does `save` take the value for the default, up to 0.01 percent? -/
def isDefault (type : VarType) (bytes : List UInt8) (defValue : Single) : Bool :=
  match castToFloat type bytes, defValue.toRat with
  | some v₁, some v₂ => isEqual v₁ v₂ || (type ≠ .int32 && |v₁ - v₂| < 1 / 10000 * |v₁|)
  | _, _ => false

/-- A call of `eeprom_write_check`. -/
structure Write where
  ofs : ℕ
  data : List UInt8

/-- The storage after the writes. -/
def applyWrites (layout : Layout) (storage : ℕ → UInt8) (writes : List Write) : ℕ → UInt8 :=
  writes.foldl (fun s w => (StorageManager.writeBlock layout .param s w.ofs w.data).2) storage

def writeSentinal (ofs : ℕ) : Write := ⟨ofs, sentinal.bytes⟩

def eraseAll : List Write := [⟨0, eepromHeader⟩, writeSentinal 4]

/-- The identity of what was found. -/
def Found.id (found : Found) : VarId := ⟨found.info.key, found.groupElement, found.type⟩

/-- The variable that holds the element at address `this`. -/
def Found.start (found : Found) (this : ℕ) : ℕ :=
  if found.idx ≠ 0 then address (this - found.idx * 4) else this

/-- The answer and the writes, in their order. -/
def save (layout : Layout) (storage : ℕ → UInt8) (stack : ParamHeader) (varInfo : List Info)
    (ptrs : Pointers) (ram : ℕ → UInt8) (this : ℕ) (forceSave : Bool) : Bool × List Write :=
  match findVarInfo ptrs this varInfo with
  | none => (false, [])
  | some found =>
    let phdr := found.id.header
    let n := typeSize phdr.type
    let value := Memory.readBlock ram (found.start this) n
    if found.type ≠ .vector3f ∧ found.idx ≠ 0 then (false, [])
    else
      match scan layout storage stack phdr with
      | (true, ofs) => (true, [⟨ofs + 4, value⟩])
      | (false, ofs) =>
        if ofs = 0xFFFF then (false, [])
        else if !forceSave && isDefault found.type value found.defValue then (true, [])
        else if ofs + n + 2 * 4 ≥ StorageManager.size layout .param then (false, [])
        else (true, [writeSentinal (ofs + 4 + n), ⟨ofs + 4, value⟩, ⟨ofs, phdr.bytes⟩])

section Load

variable (layout : Layout) (storage : ℕ → UInt8) (varInfo : List Info) (ptrs : Pointers)

/-- The loop of `load_all`. -/
def loadAllFrom : ℕ → ParamHeader → ℕ → (ℕ → UInt8) → Bool × (ℕ → UInt8)
  | 0, _, _, ram => (false, ram)
  | fuel + 1, phdr, ofs, ram =>
    if ofs < StorageManager.size layout .param then
      let phdr := readHeader layout storage phdr ofs
      if isSentinal phdr then (true, ram)
      else
        let n := typeSize phdr.type
        let ram := match findByHeader ptrs phdr varInfo with
          | some ptr =>
            Memory.writeBlock ram ptr (StorageManager.readBlock layout .param storage (ofs + 4) n).2
          | none => ram
        loadAllFrom fuel phdr (ofs + (n + 4)) ram
    else (false, ram)

def loadAll (stack : ParamHeader) (ram : ℕ → UInt8) : Bool × (ℕ → UInt8) :=
  loadAllFrom layout storage varInfo ptrs (StorageManager.size layout .param) stack 4 ram

end Load

end Tm4cPilot.Param
