import Tm4cPilot.Lib.Enumeration
import Tm4cPilot.Param.Table

/-!
# Enumerating the parameters

`first` and `next` go through the variables without an iterator: `next` walks through the tables
until it has found the variable of the token, and takes the one behind it.
-/

namespace Tm4cPilot.Param

/-- `ParamToken`: the row, the element and the identifier. -/
structure Token where
  key : ℕ
  idx : ℕ
  groupElement : ℕ
  deriving DecidableEq

/-- The token of a whole variable. -/
def Token.set (vindex groupElement : ℕ) : Token := ⟨vindex % 2 ^ 9, 0, groupElement % 2 ^ 18⟩

/-- The token of the next element. -/
def Token.nextElement (token : Token) : Token := { token with idx := token.idx + 1 }

/-- The token, the variable and its type. -/
structure Entry where
  token : Token
  ptr : ℕ
  type : ℕ
  deriving DecidableEq

/-- A variable that is returned: `nullptr` counts as none. -/
def Entry.returned (e : Entry) : Option Entry := if e.ptr = 0 then none else some e

/-- The type of a row of `_var_info`, which is 6 for a group. -/
def Content.code : Content → ℕ
  | .var type _ => type.code
  | .group _ | .nullGroup => 6

/-- Is a row with these flags included? -/
def checkFrameType (frame flags : UInt16) : Bool :=
  let frameFlags := flags >>> 5
  frameFlags = 0 ∨ frameFlags &&& frame ≠ 0

/-- Was the last variable found, and what is in the token? -/
structure Walk where
  foundCurrent : Bool
  token : Token

/-- A variable of a group; the walk goes on past `nullptr`. -/
def Entry.leave (e : Entry) : Entry ⊕ Walk := if e.ptr = 0 then .inr ⟨true, e.token⟩ else .inl e

/-- A variable of a group, at a place if it is allocated. -/
def nextLeaf (vindex groupElement : ℕ) (type : VarType) (place : Option ℤ) (w : Walk) :
    Entry ⊕ Walk :=
  if w.foundCurrent then
    -- got a new one
    let token := Token.set vindex groupElement
    match place with
    | none => .inr ⟨true, token⟩
    | some a => .inl ⟨token, address a, type.code⟩
  else if groupElement = w.token.groupElement then
    if type = .vector3f ∧ w.token.idx < 3 then
      let token := w.token.nextElement
      match place with
      | none => .inr ⟨true, token⟩
      | some a => .inl ⟨token, address (a + 4 * w.token.idx), VarType.float.code⟩
    else .inr ⟨true, w.token⟩
  else .inr w

section Next

variable (frame : UInt16) (ptrs : Pointers)

/-- The next variable in a group, or the walk behind it. -/
def nextGroup (vindex : ℕ) (info : Info) : GroupInfo → ℕ → ℕ → ℤ → Walk → Entry ⊕ Walk
  | .groupEnd, _, _, _, w => .inr w
  | .var row type _ rest, groupBase, groupShift, groupOffset, w =>
    if checkFrameType frame row.flags then
      (nextLeaf vindex (groupId row groupBase groupShift) type
        ((getBase ptrs info).map (· + (row.offset + groupOffset))) w).elim Entry.leave
        (nextGroup vindex info rest groupBase groupShift groupOffset)
    else nextGroup vindex info rest groupBase groupShift groupOffset w
  | .group row groupInfo rest, groupBase, groupShift, groupOffset, w =>
    if checkFrameType frame row.flags then
      match adjustGroupOffset ptrs info row groupOffset with
      | none => nextGroup vindex info rest groupBase groupShift groupOffset w
      | some newOffset =>
        (nextGroup vindex info groupInfo (groupId row groupBase groupShift)
          (groupShift + groupLevelShift) newOffset w).elim .inl
          (nextGroup vindex info rest groupBase groupShift groupOffset)
    else nextGroup vindex info rest groupBase groupShift groupOffset w
  | .nullGroup _ rest, groupBase, groupShift, groupOffset, w =>
    nextGroup vindex info rest groupBase groupShift groupOffset w

/-- The loop of `next` over the rows from row `i` on. -/
def nextFrom : ℕ → List Info → Walk → Option Entry
  | _, [], _ => none
  | i, info :: rest, w =>
    if checkFrameType frame info.flags then
      match info.content with
      | .group groupInfo =>
        (nextGroup frame ptrs i info groupInfo 0 0 0 w).elim some (nextFrom (i + 1) rest)
      | .nullGroup => nextFrom (i + 1) rest w
      -- found the next one
      | .var type _ => Entry.returned ⟨.set i 0, address info.ptr, type.code⟩
    else nextFrom (i + 1) rest w

/-- The variable behind the one of the token. -/
def next (varInfo : List Info) (token : Token) : Option Entry :=
  match varInfo[token.key]? with
  | none => none
  | some info =>
    match info.content with
    | .var type _ =>
      if type = .vector3f ∧ token.idx < 3 then
        Entry.returned
          ⟨token.nextElement, address (info.ptr + 4 * token.idx), VarType.float.code⟩
      else nextFrom frame ptrs (token.key + 1) (varInfo.drop (token.key + 1)) ⟨true, token⟩
    | .group _ | .nullGroup =>
      nextFrom frame ptrs token.key (varInfo.drop token.key) ⟨false, token⟩

/-- The first variable. -/
def first : List Info → Option Entry
  | [] => none
  | info :: _ =>
    (getBase ptrs info).bind fun base =>
      Entry.returned ⟨⟨0, 0, 0⟩, address base, info.content.code⟩

end Next

/-- A variable of the walk, with its place if allocated. -/
inductive Item where
  | var (row : ℕ) (type : VarType) (ptr : ℕ)
  | leaf (row groupElement : ℕ) (type : VarType) (place : Option ℤ)

namespace Item

/-- Its row in `_var_info`. -/
def row : Item → ℕ
  | var row _ _ => row
  | leaf row _ _ _ => row

/-- Its identifier. -/
def groupElement : Item → ℕ
  | var _ _ _ => 0
  | leaf _ groupElement _ _ => groupElement

def type : Item → VarType
  | var _ type _ => type
  | leaf _ _ type _ => type

/-- Its place, if it is allocated. -/
def place : Item → Option ℤ
  | var _ _ ptr => some ptr
  | leaf _ _ _ place => place

/-- It is in a group. -/
def IsLeaf : Item → Prop
  | var _ _ _ => False
  | leaf _ _ _ _ => True

/-- The entry of the variable. -/
def whole (x : Item) (a : ℤ) : Entry := ⟨.set x.row x.groupElement, address a, x.type.code⟩

/-- The entry of an element of a vector. -/
def element (x : Item) (a : ℤ) (k : ℕ) : Entry :=
  ⟨{ Token.set x.row x.groupElement with idx := k + 1 }, address (a + 4 * k), VarType.float.code⟩

/-- A vector is listed with its elements. -/
def entries (x : Item) : List Entry :=
  match x.place with
  | none => []
  | some a =>
    x.whole a :: if x.type = .vector3f then [x.element a 0, x.element a 1, x.element a 2] else []

end Item

section Items

variable (frame : UInt16) (ptrs : Pointers)

/-- The enabled variables of a group. -/
def groupItems (vindex : ℕ) (info : Info) : GroupInfo → ℕ → ℕ → ℤ → List Item
  | .groupEnd, _, _, _ => []
  | .var row type _ rest, groupBase, groupShift, groupOffset =>
    (if checkFrameType frame row.flags then
      [.leaf vindex (groupId row groupBase groupShift) type
        ((getBase ptrs info).map (· + (row.offset + groupOffset)))]
    else []) ++ groupItems vindex info rest groupBase groupShift groupOffset
  | .group row groupInfo rest, groupBase, groupShift, groupOffset =>
    (if checkFrameType frame row.flags then
      match adjustGroupOffset ptrs info row groupOffset with
      | none => []
      | some newOffset =>
        groupItems vindex info groupInfo (groupId row groupBase groupShift)
          (groupShift + groupLevelShift) newOffset
    else []) ++ groupItems vindex info rest groupBase groupShift groupOffset
  | .nullGroup _ rest, groupBase, groupShift, groupOffset =>
    groupItems vindex info rest groupBase groupShift groupOffset

/-- Those of a row. -/
def rowItems (i : ℕ) (info : Info) : List Item :=
  if checkFrameType frame info.flags then
    match info.content with
    | .group groupInfo => groupItems frame ptrs i info groupInfo 0 0 0
    | .nullGroup => []
    | .var type _ => [.var i type info.ptr]
  else []

/-- The variables of the rows from row `i` on, in table order. -/
def items : ℕ → List Info → List Item
  | _, [] => []
  | i, info :: rest => rowItems frame ptrs i info ++ items (i + 1) rest

/-- Every enabled and allocated variable, vectors with their elements. -/
def listing (varInfo : List Info) : List Entry := (items frame ptrs 0 varInfo).flatMap Item.entries

end Items

end Tm4cPilot.Param
