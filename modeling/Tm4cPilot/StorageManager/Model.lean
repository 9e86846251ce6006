import Tm4cPilot.Lib.Memory

/-!
# StorageManager and StorageAccess

The storage is cut into areas; a `StorageAccess` for a type sees the areas of that type as one range
of bytes.  `hal.storage` is an array of bytes.
-/

namespace Tm4cPilot.StorageManager

inductive StorageType where
  | param | fence | rally | mission | keys
  deriving DecidableEq

/-- An area of the storage. -/
structure StorageArea where
  type : StorageType
  offset : ℕ
  length : ℕ
  deriving DecidableEq

/-- `STORAGE_NUM_AREAS`. -/
inductive NumAreas where
  | four | nine | thirteen

def NumAreas.toNat : NumAreas → ℕ
  | four => 4
  | nine => 9
  | thirteen => 13

/-- Two areas do not overlap. -/
def StorageArea.Apart (a b : StorageArea) : Prop :=
  a.offset + a.length ≤ b.offset ∨ b.offset + b.length ≤ a.offset
deriving Decidable

/-- Areas that are apart, with a total length of 16 bits. -/
structure Layout where
  areas : List StorageArea
  apart : areas.Pairwise StorageArea.Apart
  small : (areas.map StorageArea.length).sum < 2 ^ 16

/-- The areas of larger storages. -/
def commonAreas (k : NumAreas) : List StorageArea :=
  (if k.toNat ≥ 8 then
    [⟨.param, 4096, 1280⟩, ⟨.rally, 5376, 300⟩, ⟨.fence, 5676, 256⟩, ⟨.mission, 5932, 2132⟩,
      ⟨.keys, 8064, 64⟩] else []) ++
  if k.toNat ≥ 12 then
    [⟨.param, 8192, 1280⟩, ⟨.rally, 9472, 300⟩, ⟨.fence, 9772, 256⟩, ⟨.mission, 10028, 6228⟩]
  else []

/-- The default layout. -/
def layoutDefault (k : NumAreas) : Layout where
  areas := [⟨.param, 0, 1280⟩, ⟨.mission, 1280, 2506⟩, ⟨.rally, 3786, 150⟩, ⟨.fence, 3936, 160⟩] ++
    commonAreas k
  apart := by cases k <;> decide
  small := by cases k <;> decide

/-- The layout of copters. -/
def layoutCopter (k : NumAreas) : Layout where
  areas := [⟨.param, 0, 1536⟩, ⟨.mission, 1536, 2422⟩, ⟨.rally, 3958, 90⟩, ⟨.fence, 4048, 48⟩] ++
    commonAreas k
  apart := by cases k <;> decide
  small := by cases k <;> decide

/-- `total_size` of a `StorageAccess`, a 16 bit sum. -/
def size (layout : Layout) (type : StorageType) : ℕ :=
  layout.areas.foldl
    (fun total area => if area.type = type then (total + area.length) % 2 ^ 16 else total) 0

/-- An 8 bit count, cut off at the end of the area. -/
def count (addr n length : ℕ) : ℕ := if n % 256 + addr > length then length - addr else n % 256

/-- The loop of the accesses, as address and count, and the last `n`. -/
def blocks (type : StorageType) : List StorageArea → ℕ → ℕ → List (ℕ × ℕ) × ℕ
  | [], _, n => ([], n)
  | area :: areas, addr, n =>
    if area.type ≠ type then blocks type areas addr n
    else if addr ≥ area.length then blocks type areas (addr - area.length) n
    else
      let c := count addr n area.length
      if n - c = 0 then ([(addr + area.offset, c)], 0)
      else
        let rest := blocks type areas 0 (n - c)
        ((addr + area.offset, c) :: rest.1, rest.2)

def readBlock (layout : Layout) (type : StorageType) (storage : ℕ → UInt8) (addr n : ℕ) :
    Bool × List UInt8 :=
  let done := blocks type layout.areas addr n
  (done.2 == 0, done.1.flatMap fun b => Memory.readBlock storage b.1 b.2)

/-- The accesses of a write. -/
def writeBlocks (storage : ℕ → UInt8) : List (ℕ × ℕ) → List UInt8 → ℕ → UInt8
  | [], _ => storage
  | b :: bs, data => writeBlocks (Memory.writeBlock storage b.1 (data.take b.2)) bs (data.drop b.2)

def writeBlock (layout : Layout) (type : StorageType) (storage : ℕ → UInt8) (addr : ℕ)
    (data : List UInt8) : Bool × (ℕ → UInt8) :=
  let done := blocks type layout.areas addr data.length
  (done.2 == 0, writeBlocks storage done.1 data)

end Tm4cPilot.StorageManager
