import Tm4cPilot.Lib.Memory
import Tm4cPilot.Lib.Program

/-!
# AP_FlashStorage: the driver

`AP_FlashStorage` keeps a RAM buffer in a log over two flash sectors. A flash erases to `0xFF`, and
its writes only clear bits. The flash callbacks never fail here; each one that changes the flash
emits it, with the place of the call.
-/

namespace Tm4cPilot.FlashStorage

open Memory Program UInt8

/-! ## Constants and headers -/

/-- There are two sectors, with the numbers 0 and 1. -/
scoped instance twoSectors : NeZero 2 := ⟨by decide⟩

def blockSize : ℕ := 8

def numBlocks : ℕ := 2048

def maxWrite : ℕ := 64

def storageSize : ℕ := blockSize * numBlocks

def signature : ℕ := 0x51685B

/-- `sizeof(sector_header)` -/
def sectorHeaderSize : ℕ := 4

/-- `sizeof(block_header)` -/
def blockHeaderSize : ℕ := 2

def reserveSize : ℕ := storageSize / maxWrite * (blockHeaderSize + maxWrite) + maxWrite

/-- A sector size of at least twice `reserveSize`. -/
structure Config where
  sectorSize : ℕ
  large : 2 * reserveSize ≤ sectorSize
  fits : sectorSize < 2 ^ 32

theorem Config.sectorSize_ge (cfg : Config) : 33920 ≤ cfg.sectorSize := cfg.large

inductive SectorState where
  | available
  | inUse
  | full
  deriving DecidableEq

namespace SectorState

def code : SectorState → UInt8
  | available => 0xFF
  | inUse => 0xFE
  | full => 0xFC

/-- The state of a value. -/
def ofCode (b : UInt8) : Option SectorState :=
  if b = 0xFF then some available else if b = 0xFE then some inUse
  else if b = 0xFC then some full else none

@[simp] theorem ofCode_code (st : SectorState) : ofCode st.code = some st := by
  cases st <;> decide

end SectorState

structure SectorHeader where
  state : UInt8
  signature : ℕ

namespace SectorHeader

def bytes (h : SectorHeader) : List UInt8 :=
  [h.state, UInt8.ofNat h.signature, UInt8.ofNat (h.signature / 256),
    UInt8.ofNat (h.signature / 65536)]

/-- Read from bytes. -/
def ofBytes (l : List UInt8) : SectorHeader where
  state := l.getD 0 0
  signature := (l.getD 1 0).toNat + 256 * (l.getD 2 0).toNat + 65536 * (l.getD 3 0).toNat

end SectorHeader

structure BlockHeader where
  state : ℕ
  blockNum : ℕ
  numBlocksMinusOne : ℕ

namespace BlockHeader

/-- `BLOCK_STATE_AVAILABLE`. -/
def stateAvailable : ℕ := 3

/-- `BLOCK_STATE_WRITING`. -/
def stateWriting : ℕ := 1

/-- `BLOCK_STATE_VALID`. -/
def stateValid : ℕ := 0

def bytes (h : BlockHeader) : List UInt8 :=
  [UInt8.ofNat (h.state % 4 + 4 * (h.blockNum % 64)),
    UInt8.ofNat (h.blockNum / 64 % 32 + 32 * (h.numBlocksMinusOne % 8))]

/-- Read from bytes. -/
def ofBytes (l : List UInt8) : BlockHeader where
  state := (l.getD 0 0).toNat % 4
  blockNum := (l.getD 0 0).toNat / 4 + 64 * ((l.getD 1 0).toNat % 32)
  numBlocksMinusOne := (l.getD 1 0).toNat / 32

/-- Where the block lies. -/
def blockOfs (h : BlockHeader) : ℕ := h.blockNum * blockSize

/-- How long it is. -/
def blockNbytes (h : BlockHeader) : ℕ := (h.numBlocksMinusOne + 1) * blockSize

end BlockHeader

/-- The bytes of both sectors. -/
abbrev Flash := Fin 2 → ℕ → UInt8

/-- Where the flash is changed. -/
inductive CallSite where
  | blockWriting | blockData | blockValid
  | sectorErase | sectorAvailable | formatInUse
  | switchInUse | switchFull
  deriving DecidableEq

/-- The flash, the answers of `flash_erase_ok` and the driver. -/
structure State where
  flash : Flash
  eraseOk : ℕ → Bool
  memBuffer : ℕ → UInt8
  currentSector : Fin 2
  writeOffset : ℕ
  reservedSpace : ℕ
  writeError : Bool

/-- Replace a sector. -/
def State.setSector (s : State) (sector : Fin 2) (m : ℕ → UInt8) : State :=
  { s with flash := Function.update s.flash sector m }

/-- A program of the driver. -/
abbrev M := Prog (CallSite × Flash) State

def flashRead (sector : Fin 2) (offset length : ℕ) : M (Bool × List UInt8) := do
  let s ← Prog.state
  return (true, readBlock (s.flash sector) offset length)

def flashWrite (site : CallSite) (sector : Fin 2) (offset : ℕ) (data : List UInt8) : M Bool := do
  Prog.update fun s => s.setSector sector (updateBlock (· &&& ·) (s.flash sector) offset data)
  Prog.emit fun s => (site, s.flash)
  return true

/-- An erased sector. -/
def erased (size : ℕ) (m : ℕ → UInt8) : ℕ → UInt8 := fun a => if a < size then 0xFF else m a

def flashEraseOk : M Bool := do
  let s ← Prog.state
  Prog.update fun s => { s with eraseOk := fun n => s.eraseOk (n + 1) }
  return s.eraseOk 0

variable (cfg : Config)

def flashErase (sector : Fin 2) : M Bool := do
  Prog.update fun s => s.setSector sector (erased cfg.sectorSize (s.flash sector))
  Prog.emit fun s => (.sectorErase, s.flash)
  return true

def eraseSector (sector : Fin 2) : M Bool := do
  if !(← flashErase cfg sector) then return false
  flashWrite .sectorAvailable sector 0
    (SectorHeader.bytes ⟨SectorState.available.code, signature⟩)

def eraseAll : M Bool := do
  Prog.update fun s => { s with
    writeError := false
    memBuffer := fun _ => 0
    currentSector := 0
    writeOffset := sectorHeaderSize }
  if !(← eraseSector cfg 0) then return false
  if !(← eraseSector cfg 1) then return false
  let s ← Prog.state
  flashWrite .formatInUse s.currentSector 0
    (SectorHeader.bytes ⟨SectorState.inUse.code, signature⟩)

def switchSectors : M Bool := do
  let s ← Prog.state
  -- the other sector is already full
  if s.reservedSpace ≠ 0 then return false
  let newSector := s.currentSector + 1
  let (ok, bytes) ← flashRead newSector 0 sectorHeaderSize
  if !ok then return false
  let header := SectorHeader.ofBytes bytes
  if header.signature ≠ signature then
    Prog.update fun s => { s with writeError := true }
    return false
  if header.state ≠ SectorState.available.code then
    Prog.update fun s => { s with writeError := true }
    return false
  if !(← flashWrite .switchInUse newSector 0
      (SectorHeader.bytes { header with state := SectorState.inUse.code })) then return false
  if !(← flashWrite .switchFull s.currentSector 0
      (SectorHeader.bytes { header with state := SectorState.full.code })) then return false
  Prog.update fun s => { s with
    currentSector := newSector
    reservedSpace := reserveSize
    writeOffset := sectorHeaderSize }
  return true

/-! ## Writing -/

/-- Without room, switch sectors, or `switchFullSector`. -/
def makeRoom (switchFullSector : M Bool) : M Bool := do
  let s ← Prog.state
  if s.writeOffset > cfg.sectorSize - (blockHeaderSize + maxWrite + s.reservedSpace) then
    if ← switchSectors then return true
    if !(← flashEraseOk) then return false
    switchFullSector
  else return true

/-- The header of the next block of `write`. -/
def blockFor (offset length : ℕ) : BlockHeader where
  state := BlockHeader.stateWriting
  blockNum := offset / blockSize % numBlocks
  numBlocksMinusOne :=
    (((if length < maxWrite then length else maxWrite) + (blockSize - 1)) / blockSize - 1) % 8

/-- The header, the data, then the header as valid. -/
def writeRecord (header : BlockHeader) : M Bool := do
  let s ← Prog.state
  if !(← flashWrite .blockWriting s.currentSector s.writeOffset header.bytes) then return false
  if !(← flashWrite .blockData s.currentSector (s.writeOffset + blockHeaderSize)
      (readBlock s.memBuffer header.blockOfs header.blockNbytes)) then return false
  if !(← flashWrite .blockValid s.currentSector s.writeOffset
      (BlockHeader.bytes { header with state := BlockHeader.stateValid })) then return false
  Prog.update fun s => { s with
    writeOffset := s.writeOffset + blockHeaderSize + header.blockNbytes }
  return true

/-- How far the block moves the loop of `write` on. -/
def advance (offset length : ℕ) : ℕ := (blockFor offset length).blockNbytes - offset % blockSize

theorem advance_pos (offset length : ℕ) : 0 < advance offset length := by
  simp only [advance, BlockHeader.blockNbytes, blockSize]
  omega

/-- The loop of `write`. -/
def writeLoop (switchFullSector : M Bool) (offset length : ℕ) : M Bool :=
  if length = 0 then return true
  else do
    if !(← makeRoom cfg switchFullSector) then return false
    if !(← writeRecord (blockFor offset length)) then return false
    let n2 := advance offset length
    if n2 > length then return true
    else writeLoop switchFullSector (offset + n2) (length - n2)
termination_by length
decreasing_by
  have := advance_pos offset length
  omega

/-- `write`, with a way to switch. -/
def writeWith (switchFullSector : M Bool) (offset length : ℕ) : M Bool := do
  let s ← Prog.state
  if s.writeError then return false
  writeLoop cfg switchFullSector offset length

def allZero (m : ℕ → UInt8) (ofs size : ℕ) : Bool := (readBlock m ofs size).all (· == 0)

/-- The loop of `write_all` over the offsets that are left. -/
def writeAllFrom (write : ℕ → ℕ → M Bool) : List ℕ → M Bool
  | [] => return true
  | ofs :: rest => do
    let s ← Prog.state
    if allZero s.memBuffer ofs maxWrite then writeAllFrom write rest
    else if ← write ofs maxWrite then writeAllFrom write rest
    else return false

/-- The offsets of the chunks that `write_all` visits. -/
def chunkOffsets : List ℕ := (List.range (storageSize / maxWrite)).map (· * maxWrite)

/-- `switch_full_sector`, with a `write`. -/
def switchFullSectorWith (write : ℕ → ℕ → M Bool) : M Bool := do
  Prog.update fun s => { s with writeError := false, reservedSpace := 0 }
  if !(← writeAllFrom write chunkOffsets) then return false
  let s ← Prog.state
  if !(← eraseSector cfg (s.currentSector + 1)) then return false
  switchSectors

/-- It calls `write` again; at depth 0 it does not return. -/
def switchFullSector : ℕ → M Bool
  | 0 => Prog.diverge
  | d + 1 => switchFullSectorWith cfg (writeWith cfg (switchFullSector d))

def write (d : ℕ) (offset length : ℕ) : M Bool := writeWith cfg (switchFullSector cfg d) offset length

def writeAll (d : ℕ) : M Bool := writeAllFrom (write cfg d) chunkOffsets

/-- Load the data of a record. -/
def loadBlock (sector : Fin 2) (ofs : ℕ) (header : BlockHeader) : M Bool :=
  if header.state = BlockHeader.stateValid then do
    let (ok, data) ← flashRead sector (ofs + blockHeaderSize) header.blockNbytes
    if !ok then return false
    Prog.update fun s => { s with memBuffer := writeBlock s.memBuffer header.blockOfs data }
    return true
  else return true

/-- The loop of `load_sector`. -/
def loadFrom (sector : Fin 2) (ofs : ℕ) : M Bool :=
  if ofs < cfg.sectorSize - blockHeaderSize then do
    let (ok, bytes) ← flashRead sector ofs blockHeaderSize
    if !ok then return false
    let header := BlockHeader.ofBytes bytes
    if header.state = BlockHeader.stateAvailable then
      -- we've reached the end
      Prog.update fun s => { s with writeOffset := ofs }
      return true
    else if header.state = BlockHeader.stateValid ∨ header.state = BlockHeader.stateWriting then
      if header.blockOfs + header.blockNbytes > storageSize then return false
      else if !(← loadBlock sector ofs header) then return false
      else loadFrom sector (ofs + header.blockNbytes + blockHeaderSize)
    else return false
  else do
    Prog.update fun s => { s with writeOffset := ofs }
    return true
termination_by cfg.sectorSize - ofs
decreasing_by
  simp only [BlockHeader.blockNbytes, blockSize, blockHeaderSize]
  omega

def loadSector (sector : Fin 2) : M Bool := loadFrom cfg sector sectorHeaderSize

/-- Load the sectors in order. -/
def loadSectors (states : Fin 2 → SectorState) : List (Fin 2) → M Bool
  | [] => return true
  | sector :: rest => do
    if states sector = .inUse ∨ states sector = .full then
      if ← loadSector cfg sector then loadSectors states rest else return false
    else loadSectors states rest

/-- The state in a header, `none` for a bad one. -/
def headerState (bytes : List UInt8) : Option SectorState :=
  let header := SectorHeader.ofBytes bytes
  if header.signature ≠ signature then none else SectorState.ofCode header.state

/-- The first sector to read, if the states make sense. -/
def firstSector (states : Fin 2 → SectorState) : Option (Fin 2) :=
  if states 0 = states 1 then
    if states 0 ≠ .available then none else some 0
  else if states 0 = .full then some 0
  else if states 1 = .full then some 1
  else if states 0 = .inUse then some 0
  else if states 1 = .inUse then some 1
  else some 0

/-- Write all out if a sector is full. -/
def compact (d : ℕ) (states : Fin 2 → SectorState) (first : Fin 2) : M Bool :=
  if states first = .full then do
    Prog.update fun s => { s with currentSector := first + 1 }
    writeAll cfg d
  else return true

/-- Erase the full sectors. -/
def eraseFull (states : Fin 2 → SectorState) : List (Fin 2) → M Bool
  | [] => return true
  | sector :: rest => do
    if states sector = .full then
      if ← eraseSector cfg sector then eraseFull states rest else return false
    else eraseFull states rest

/-- `init` behind the two headers. -/
def initStates (eraseAll : M Bool) (d : ℕ) (states : Fin 2 → SectorState) : M Bool :=
  match firstSector states with
  | none => eraseAll
  | some first => do
    if !(← loadSectors cfg states [first, first + 1]) then eraseAll
    else
      Prog.update fun s => { s with writeError := false, reservedSpace := 0 }
      if !(← compact cfg d states first) then eraseAll
      else if !(← eraseFull cfg states [0, 1]) then return false
      else
        Prog.update fun s => { s with reservedSpace := 0 }
        return true

/-- `init`, with a routine to fall back to. -/
def initWith (eraseAll : M Bool) (d : ℕ) : M Bool := do
  Prog.update fun s => { s with memBuffer := fun _ => 0 }
  let (ok, bytes) ← flashRead 0 0 sectorHeaderSize
  if !ok then return false
  match headerState bytes with
  | none => eraseAll
  | some st0 =>
    let (ok, bytes) ← flashRead 1 0 sectorHeaderSize
    if !ok then return false
    match headerState bytes with
    | none => eraseAll
    | some st1 => initStates cfg eraseAll d ![st0, st1]

def init (d : ℕ) : M Bool := initWith cfg (eraseAll cfg) d

/-- A zero-initialised driver over a flash, before `init`. -/
def fresh (f : Flash) (eraseOk : ℕ → Bool) : State where
  flash := f
  eraseOk := eraseOk
  memBuffer := fun _ => 0
  currentSector := 0
  writeOffset := 0
  reservedSpace := 0
  writeError := false

end Tm4cPilot.FlashStorage
