import Tm4cPilot.Lib.Memory
import Tm4cPilot.Lib.Run
import Tm4cPilot.Px4Storage.Bitmask

/-!
# PX4Storage over the EEPROM

`PX4Storage` keeps a copy of the EEPROM, loaded at the first access that needs it, and a mask of the
lines that `_timer_tick` has to write back, one at a time.
-/

namespace Tm4cPilot.Px4Storage

def storageSize : ℕ := 6144

def lineSize : ℕ := 512

def numLines : ℕ := storageSize / lineSize

/-- The answer of `EEPROMSizeGet` on the board: 6 KB. -/
def eepromSize : ℕ := 6144

/-- Read `n` bytes at `src` to `dst`. -/
def devEepromRead (eeprom dst : ℕ → UInt8) (src n : ℕ) : ℕ × (ℕ → UInt8) :=
  if src % 4 ≠ 0 ∨ n % 4 ≠ 0 ∨ src + n > eepromSize then (0, dst)
  else (n, Memory.writeBlock dst 0 (Memory.readBlock eeprom src n))

/-- Write `src` at `dst`, if the device takes the bytes. -/
def devEepromWrite (ok : Bool) (eeprom : ℕ → UInt8) (dst : ℕ) (src : List UInt8) :
    ℕ × (ℕ → UInt8) :=
  if dst % 4 ≠ 0 ∨ src.length % 4 ≠ 0 ∨ dst + src.length > eepromSize then (0, eeprom)
  else if ok then (src.length, Memory.writeBlock eeprom dst src)
  else (0, eeprom)

/-- The EEPROM and the driver. -/
structure State where
  eeprom : ℕ → UInt8
  initialised : Bool
  buffer : ℕ → UInt8
  dirtyMask : Bitmask

/-- The driver at boot. -/
def fresh (eeprom : ℕ → UInt8) : State where
  eeprom := eeprom
  initialised := false
  buffer := fun _ => 0
  dirtyMask := .ofNumbits numLines

def mtdLoad (s : State) : State :=
  { s with buffer := (devEepromRead s.eeprom s.buffer 0 storageSize).2 }

def storageOpen (s : State) : State :=
  if s.initialised then s
  else { mtdLoad { s with dirtyMask := s.dirtyMask.clearall } with initialised := true }

/-- The lines from `loc >> 9` to `end >> 9`, in 16 bits. -/
def dirtyLines (loc length : ℕ) : List ℕ :=
  List.range' (loc / lineSize) ((loc + length) % 2 ^ 16 / lineSize + 1 - loc / lineSize)

def markDirty (s : State) (loc length : ℕ) : State :=
  { s with dirtyMask := (dirtyLines loc length).foldl Bitmask.set s.dirtyMask }

/-- The check `loc >= sizeof(_buffer)-(n-1)` in 32 bits. -/
def outOfRange (loc : UInt16) (n : UInt32) : Bool :=
  loc.toUInt32 ≥ UInt32.ofNat storageSize - (n - 1)

/-- What a read delivers, `none` if nothing. -/
def readBlock (s : State) (loc : UInt16) (n : UInt32) : State × Option (List UInt8) :=
  if outOfRange loc n then (s, none)
  else (storageOpen s, some (Memory.readBlock (storageOpen s).buffer loc.toNat n.toNat))

def writeBlock (s : State) (loc : UInt16) (src : List UInt8) : State :=
  if outOfRange loc (UInt32.ofNat src.length) then s
  else if src = Memory.readBlock s.buffer loc.toNat src.length then s
  else
    let s := storageOpen s
    markDirty { s with buffer := Memory.writeBlock s.buffer loc.toNat src } loc.toNat
      (src.length % 2 ^ 16)

/-- `_mtd_write`: the line is clean before the write, and dirty again if it fails. -/
def mtdWrite (ok : Bool) (s : State) (line : ℕ) : State :=
  let ofs := line * lineSize % 2 ^ 16
  let clean := s.dirtyMask.clear line
  let written := devEepromWrite ok s.eeprom ofs (Memory.readBlock s.buffer ofs lineSize)
  { s with
    eeprom := written.2
    dirtyMask := if written.1 ≠ lineSize then clean.set line else clean }

def timerTick (s : State) (ok : Bool) : State :=
  if !s.initialised || s.dirtyMask.empty then s
  else
    match (List.range numLines).find? s.dirtyMask.get with
    | none => s
    | some i => mtdWrite ok s i

inductive Op where
  | read (loc : UInt16) (n : UInt32)
  | write (loc : UInt16) (src : List UInt8)
  | tick (ok : Bool)

def step (s : State) : Op → State
  | .read loc n => (readBlock s loc n).1
  | .write loc src => writeBlock s loc src
  | .tick ok => timerTick s ok

end Tm4cPilot.Px4Storage
