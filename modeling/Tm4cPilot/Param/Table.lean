import Mathlib.Data.List.Basic
import Mathlib.Tactic

/-!
# The tables that describe the parameters

A variable is identified in storage by the key of its row in `_var_info` and by the `group_id` of
its path through the tables of the object. A table holds the tables it points to, and
`AP_PARAM_NONE` is the end of the list.
-/

namespace Tm4cPilot.Param

/-- The members of `ap_var_type` that a variable can have. -/
inductive VarType where
  | int8 | int16 | int32 | float | vector3f
  deriving DecidableEq

/-- The `AP_PARAM_*` value. -/
def VarType.code : VarType → ℕ
  | int8 => 1
  | int16 => 2
  | int32 => 3
  | float => 4
  | vector3f => 5

/-- The size in storage, 0 for types without a value. -/
def typeSize : ℕ → ℕ
  | 1 => 1
  | 2 => 2
  | 3 => 4
  | 4 => 4
  | 5 => 3 * 4
  | _ => 0

/-- The bits of a `float`. -/
abbrev Single := UInt32

/-- `AP_PARAM_FLAG_NESTED_OFFSET`. -/
def flagNestedOffset : UInt16 := 1
/-- `AP_PARAM_FLAG_POINTER`. -/
def flagPointer : UInt16 := 2
/-- `AP_PARAM_NO_SHIFT`. -/
def noShift : UInt16 := 8

/-- Is a flag set? -/
def hasFlag (flags flag : UInt16) : Bool := flags &&& flag != 0

/-- A row of a group table. -/
structure Row where
  idx : UInt8
  name : List Char
  offset : ℤ
  flags : UInt16
  deriving DecidableEq

/-- A group table, from a row on; `nullGroup` has no rows. -/
inductive GroupInfo where
  | groupEnd
  | var (row : Row) (type : VarType) (defValue : Single) (rest : GroupInfo)
  | group (row : Row) (groupInfo : GroupInfo) (rest : GroupInfo)
  | nullGroup (row : Row) (rest : GroupInfo)

/-- What a row of `_var_info` describes. -/
inductive Content where
  | var (type : VarType) (defValue : Single)
  | group (groupInfo : GroupInfo)
  | nullGroup

/-- A row of `_var_info`. -/
structure Info where
  name : List Char
  key : UInt16
  ptr : ℕ
  content : Content
  flags : UInt16

def groupLevelShift : ℕ := 6

def groupBits : ℕ := 18

/-- The index at the bits of its level; 0 may count as 63. -/
def groupId (row : Row) (base shift : ℕ) : ℕ :=
  if row.idx = 0 ∧ shift ≠ 0 ∧ hasFlag row.flags noShift = false then base + (63 <<< shift)
  else base + (row.idx.toNat <<< shift)

/-- `usedMask` has the indexes of the rows before. -/
def checkGroupInfo : GroupInfo → ℕ → ℕ → ℕ → Bool
  | .groupEnd, _, _, _ => true
  | .var row type _ rest, groupShift, prefixLength, usedMask =>
    let idx := row.idx.toNat
    if idx ≥ 1 <<< groupLevelShift then false
    else
      let idx := if groupShift ≠ 0 ∧ idx = 0 then 63 else idx
      if usedMask.testBit idx then false
      else if typeSize type.code = 0 then false
      else if prefixLength + row.name.length > 16 then false
      else checkGroupInfo rest groupShift prefixLength (usedMask ||| 1 <<< idx)
  | .group row groupInfo rest, groupShift, prefixLength, usedMask =>
    if row.idx.toNat ≥ 1 <<< groupLevelShift then false
    else if groupShift + groupLevelShift ≥ groupBits then false
    else if !checkGroupInfo groupInfo (groupShift + groupLevelShift)
        ((prefixLength + row.name.length) % 2 ^ 8) 0 then false
    else checkGroupInfo rest groupShift prefixLength usedMask
  | .nullGroup row rest, groupShift, prefixLength, usedMask =>
    if row.idx.toNat ≥ 1 <<< groupLevelShift then false
    else if groupShift + groupLevelShift ≥ groupBits then false
    else checkGroupInfo rest groupShift prefixLength usedMask

def duplicateKey (later : List Info) (key : UInt16) : Bool := later.any (·.key == key)

/-- The loop of `check_var_info` from row `i` on. -/
def checkVarInfoFrom : ℕ → List Info → Bool
  | _, [] => true
  | i, info :: rest =>
    match info.content with
    | .group groupInfo =>
      if i = 0 then false
      else if !checkGroupInfo groupInfo 0 (info.name.length % 2 ^ 8) 0 then false
      else if duplicateKey rest info.key then false
      else checkVarInfoFrom (i + 1) rest
    | .nullGroup => if i = 0 then false else checkVarInfoFrom (i + 1) rest
    | .var type _ =>
      if typeSize type.code = 0 then false
      else if duplicateKey rest info.key then false
      else if hasFlag info.flags flagPointer then false
      else checkVarInfoFrom (i + 1) rest

def checkVarInfo (varInfo : List Info) : Bool := checkVarInfoFrom 0 varInfo

/-- What identifies a variable. -/
@[ext] structure VarId where
  key : UInt16
  groupElement : ℕ
  type : VarType
  deriving DecidableEq

/-- The variables of a group table. -/
def leaves : GroupInfo → ℕ → ℕ → List (ℕ × VarType)
  | .groupEnd, _, _ => []
  | .var row type _ rest, base, shift => (groupId row base shift, type) :: leaves rest base shift
  | .group row groupInfo rest, base, shift =>
    leaves groupInfo (groupId row base shift) (shift + groupLevelShift) ++ leaves rest base shift
  | .nullGroup _ rest, base, shift => leaves rest base shift

/-- Those of a row. -/
def Info.vars (info : Info) : List VarId :=
  match info.content with
  | .var type _ => [⟨info.key, 0, type⟩]
  | .group groupInfo => (leaves groupInfo 0 0).map fun leaf => ⟨info.key, leaf.1, leaf.2⟩
  | .nullGroup => []

/-- Those of all rows. -/
def vars (varInfo : List Info) : List VarId := varInfo.flatMap Info.vars

/-! ## Lookups -/

/-- The pointer at each address, 0 for `nullptr`. -/
abbrev Pointers := ℕ → ℕ

/-- An address of 32 bits. -/
def address (a : ℤ) : ℕ := (a % 2 ^ 32).toNat

/-- The base of a row, `none` when its object is not allocated. -/
def getBase (ptrs : Pointers) (info : Info) : Option ℤ :=
  if hasFlag info.flags flagPointer then
    if ptrs info.ptr = 0 then none else some (ptrs info.ptr)
  else some info.ptr

/-- The offset of a nested group, if allocated. -/
def adjustGroupOffset (ptrs : Pointers) (info : Info) (row : Row) (newOffset : ℤ) : Option ℤ :=
  if hasFlag row.flags flagNestedOffset then some (newOffset + row.offset)
  else if hasFlag row.flags flagPointer then
    match getBase ptrs info with
    | none => none
    | some base =>
      let p := ptrs (address (base + newOffset + row.offset))
      if p = 0 then none else some (p - base)
  else some newOffset

/-- `Param_header`, with the widths of the bit fields. -/
structure ParamHeader where
  keyLow : Fin (2 ^ 8)
  type : Fin (2 ^ 5)
  keyHigh : Fin 2
  groupElement : Fin (2 ^ 18)
  deriving DecidableEq

def ParamHeader.getKey (phdr : ParamHeader) : ℕ := phdr.keyHigh.val * 2 ^ 8 + phdr.keyLow.val

def findByHeaderGroup (ptrs : Pointers) (info : Info) (phdr : ParamHeader) :
    GroupInfo → ℕ → ℕ → ℤ → Option ℕ
  | .groupEnd, _, _, _ => none
  | .var row type _ rest, base, shift, offset =>
    if groupId row base shift = phdr.groupElement ∧ type.code = phdr.type then
      match getBase ptrs info with
      | none => findByHeaderGroup ptrs info phdr rest base shift offset
      | some b => some (address (b + row.offset + offset))
    else findByHeaderGroup ptrs info phdr rest base shift offset
  | .group row groupInfo rest, base, shift, offset =>
    if shift + groupLevelShift ≥ groupBits then none
    else
      match adjustGroupOffset ptrs info row offset with
      | none => findByHeaderGroup ptrs info phdr rest base shift offset
      | some newOffset =>
        match findByHeaderGroup ptrs info phdr groupInfo (groupId row base shift)
          (shift + groupLevelShift) newOffset with
        | some ptr => some ptr
        | none => findByHeaderGroup ptrs info phdr rest base shift offset
  | .nullGroup _ rest, base, shift, offset =>
    if shift + groupLevelShift ≥ groupBits then none
    else findByHeaderGroup ptrs info phdr rest base shift offset

def findByHeader (ptrs : Pointers) (phdr : ParamHeader) : List Info → Option ℕ
  | [] => none
  | info :: rest =>
    if info.key.toNat ≠ phdr.getKey then findByHeader ptrs phdr rest
    else
      match info.content with
      | .group groupInfo => findByHeaderGroup ptrs info phdr groupInfo 0 0 0
      | .nullGroup => findByHeader ptrs phdr rest
      | .var type _ =>
        if type.code = phdr.type then (getBase ptrs info).map address
        else findByHeader ptrs phdr rest

/-- The rows of a variable, its identifier and its element. -/
structure Found where
  info : Info
  ginfo : Option Row
  nesting : List Row
  groupElement : ℕ
  type : VarType
  defValue : Single
  idx : ℕ

/-- The levels of groups. -/
def numlevels : ℕ := 2

/-- The element of a vector at `start` that lies at `this`. -/
def vectorElement (this : ℕ) (start : ℤ) : ℕ := address (this - start) / 4

/-- Does `this` lie behind the first element of a vector? -/
def insideVector (type : VarType) (this : ℕ) (start : ℤ) : Bool :=
  type = .vector3f ∧ (address (start + 4) = this ∨ address (start + 2 * 4) = this)

/-- `find_var_info_group`, with the base looked up before. -/
def findVarInfoGroup (ptrs : Pointers) (info : Info) (base : ℤ) (this : ℕ) :
    GroupInfo → ℕ → ℕ → ℤ → List Row → Option Found
  | .groupEnd, _, _, _, _ => none
  | .var row type defValue rest, groupBase, shift, offset, nesting =>
    let start := base + (row.offset + offset)
    if this = address start then
      some ⟨info, some row, nesting, groupId row groupBase shift, type, defValue, 0⟩
    else if insideVector type this start then
      some ⟨info, some row, nesting, groupId row groupBase shift, type, defValue,
        vectorElement this start⟩
    else findVarInfoGroup ptrs info base this rest groupBase shift offset nesting
  | .group row groupInfo rest, groupBase, shift, offset, nesting =>
    if shift + groupLevelShift ≥ groupBits then none
    else
      match adjustGroupOffset ptrs info row offset with
      | none => findVarInfoGroup ptrs info base this rest groupBase shift offset nesting
      | some newOffset =>
        if nesting.length ≥ numlevels then none
        else
          match findVarInfoGroup ptrs info base this groupInfo (groupId row groupBase shift)
            (shift + groupLevelShift) newOffset (nesting ++ [row]) with
          | some found => some found
          | none => findVarInfoGroup ptrs info base this rest groupBase shift offset nesting
  | .nullGroup _ rest, groupBase, shift, offset, nesting =>
    findVarInfoGroup ptrs info base this rest groupBase shift offset nesting

/-- Find the rows for the variable at address `this`. -/
def findVarInfo (ptrs : Pointers) (this : ℕ) : List Info → Option Found
  | [] => none
  | info :: rest =>
    match getBase ptrs info with
    | none => findVarInfo ptrs this rest
    | some base =>
      match info.content with
      | .group groupInfo =>
        match findVarInfoGroup ptrs info base this groupInfo 0 0 0 [] with
        | some found => some found
        | none => findVarInfo ptrs this rest
      | .nullGroup => findVarInfo ptrs this rest
      | .var type defValue =>
        if this = address base then some ⟨info, none, [], 0, type, defValue, 0⟩
        else if insideVector type this base then
          some ⟨info, none, [], 0, type, defValue, vectorElement this base⟩
        else findVarInfo ptrs this rest

end Tm4cPilot.Param
