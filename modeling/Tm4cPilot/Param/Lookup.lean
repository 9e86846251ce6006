import Tm4cPilot.Param.Log
import Tm4cPilot.Param.Unique

/-!
# Lookups in the tables

`placed` lists the allocated variables with their addresses. In accepted tables, both lookups take
the first of them that fits.
-/

namespace Tm4cPilot.Param

open List Option Found

/-- A variable and where it lies; does it have a row to itself? -/
structure Placed extends VarId where
  top : Bool
  address : ℕ
  defValue : Single

section Placed

variable (ptrs : Pointers)

/-- The variables of a group table. -/
def placedGroup (info : Info) (base : ℤ) : GroupInfo → ℕ → ℕ → ℤ → List Placed
  | .groupEnd, _, _, _ => []
  | .var row type defValue rest, groupBase, shift, offset =>
    ⟨⟨info.key, groupId row groupBase shift, type⟩, false, address (base + (row.offset + offset)),
      defValue⟩ :: placedGroup info base rest groupBase shift offset
  | .group row groupInfo rest, groupBase, shift, offset =>
    (match adjustGroupOffset ptrs info row offset with
      | none => []
      | some newOffset => placedGroup info base groupInfo (groupId row groupBase shift)
          (shift + groupLevelShift) newOffset) ++
      placedGroup info base rest groupBase shift offset
  | .nullGroup _ rest, groupBase, shift, offset =>
    placedGroup info base rest groupBase shift offset

/-- Those of a row. -/
def Info.placed (info : Info) : List Placed :=
  match getBase ptrs info with
  | none => []
  | some base =>
    match info.content with
    | .var type defValue => [⟨⟨info.key, 0, type⟩, true, address base, defValue⟩]
    | .group groupInfo => placedGroup ptrs info base groupInfo 0 0 0
    | .nullGroup => []

/-- Those of all rows. -/
def placed (varInfo : List Info) : List Placed := varInfo.flatMap (Info.placed ptrs)

@[simp] theorem placed_cons (info : Info) (rest : List Info) :
    placed ptrs (info :: rest) = info.placed ptrs ++ placed ptrs rest := rfl

theorem placedGroup_sublist (info : Info) (base : ℤ) (g : GroupInfo) (groupBase shift : ℕ)
    (offset : ℤ) :
    List.Sublist ((placedGroup ptrs info base g groupBase shift offset).map Placed.toVarId)
      ((leaves g groupBase shift).map fun leaf => ⟨info.key, leaf.1, leaf.2⟩) := by
  induction g generalizing groupBase shift offset with
  | groupEnd => exact .slnil
  | var row type _ rest ih => exact (ih groupBase shift offset).cons_cons _
  | group row groupInfo rest ihg ih =>
    simp only [placedGroup, leaves, map_append]
    refine .append ?_ (ih groupBase shift offset)
    split
    · exact nil_sublist _
    · exact ihg ..
  | nullGroup _ rest ih => exact ih groupBase shift offset

theorem placed_sublist (varInfo : List Info) :
    List.Sublist ((placed ptrs varInfo).map Placed.toVarId) (vars varInfo) := by
  induction varInfo with
  | nil => exact .slnil
  | cons info rest ih =>
    rw [placed_cons, map_append]
    refine .append ?_ ih
    unfold Info.placed Info.vars
    cases getBase ptrs info with
    | none => exact nil_sublist _
    | some base =>
      cases info.content with
      | var type d => exact .refl _
      | group g => exact placedGroup_sublist ..
      | nullGroup => exact .refl _

end Placed

/-! ## By header -/

/-- A header is taken for this variable. -/
def hits (phdr : ParamHeader) (v : Placed) : Bool :=
  v.key.toNat = phdr.getKey ∧ v.type.code = phdr.type ∧
    (v.top = true ∨ v.groupElement = phdr.groupElement)

section ByHeader

variable {ptrs : Pointers} {phdr : ParamHeader} {info : Info}

theorem key_of_mem_placed {v : Placed} (h : v ∈ info.placed ptrs) : v.key = info.key := by
  have hsub := placed_sublist ptrs [info]
  simp only [placed, vars, flatMap_singleton] at hsub
  exact key_of_mem_vars (hsub.mem (List.mem_map_of_mem h))

theorem key_ne_of_duplicateKey {rest : List Info} (hdup : duplicateKey rest info.key = false)
    {v : Placed} (hv : v ∈ placed ptrs rest) : v.key ≠ info.key := by
  intro hkey
  obtain ⟨info', hinfo', hv⟩ := mem_flatMap.1 hv
  rw [duplicateKey, List.any_eq_false] at hdup
  exact hdup info' hinfo' (beq_iff_eq.2 (by rw [← key_of_mem_placed hv, hkey]))

theorem hits_group (hkey : info.key.toNat = phdr.getKey) {groupElement address : ℕ}
    {type : VarType} {d : Single} :
    hits phdr ⟨⟨info.key, groupElement, type⟩, false, address, d⟩ = true ↔
      groupElement = phdr.groupElement ∧ type.code = phdr.type := by
  simp only [hits, decide_eq_true_eq, hkey, true_and, Bool.false_eq_true, false_or]
  exact and_comm

theorem findByHeaderGroup_none (hbase : getBase ptrs info = none) (g : GroupInfo)
    (base shift : ℕ) (offset : ℤ) :
    findByHeaderGroup ptrs info phdr g base shift offset = none := by
  induction g generalizing base shift offset with
  | groupEnd => rfl
  | var row type _ rest ih =>
    simp only [findByHeaderGroup, hbase, ih, ite_self]
  | group row groupInfo rest ihg ih =>
    simp only [findByHeaderGroup, ih, ihg]
    split_ifs
    · rfl
    · split <;> rfl
  | nullGroup _ rest ih => simp only [findByHeaderGroup, ih, ite_self]

theorem findByHeaderGroup_eq {base : ℤ} (hbase : getBase ptrs info = some base)
    (hkey : info.key.toNat = phdr.getKey) {g : GroupInfo} {groupBase shift n used : ℕ} {offset : ℤ}
    (h : checkGroupInfo g shift n used = true) :
    findByHeaderGroup ptrs info phdr g groupBase shift offset =
      ((placedGroup ptrs info base g groupBase shift offset).find? (hits phdr)).map
        Placed.address := by
  induction g generalizing groupBase shift n used offset with
  | groupEnd => rfl
  | var row type d rest ih =>
    obtain ⟨-, -, hrest⟩ := checkGroupInfo_var h
    simp only [findByHeaderGroup, placedGroup, hbase, add_assoc]
    split_ifs with hmatch
    · rw [find?_cons_of_pos ((hits_group hkey).2 hmatch), map_some]
    · rw [find?_cons_of_neg (fun hhits => hmatch ((hits_group hkey).1 hhits)), ih hrest]
  | group row groupInfo rest ihg ih =>
    obtain ⟨-, hbits, ⟨m, hsub⟩, hrest⟩ := checkGroupInfo_group h
    rw [findByHeaderGroup, placedGroup, if_neg (not_le.2 hbits), find?_append, ih hrest]
    cases adjustGroupOffset ptrs info row offset with
    | none => rfl
    | some newOffset =>
      simp only [ihg hsub]
      cases (placedGroup ptrs info base groupInfo (groupId row groupBase shift)
        (shift + groupLevelShift) newOffset).find? (hits phdr) <;> rfl
  | nullGroup row rest ih =>
    have hbits : shift + groupLevelShift < groupBits := by
      simp only [checkGroupInfo] at h
      split_ifs at h with _ hbits
      exact not_le.1 hbits
    rw [findByHeaderGroup, placedGroup, if_neg (not_le.2 hbits), ih (checkGroupInfo_nullGroup h)]

theorem findByHeader_eq {i : ℕ} {varInfo : List Info} (h : checkVarInfoFrom i varInfo = true) :
    findByHeader ptrs phdr varInfo =
      ((placed ptrs varInfo).find? (hits phdr)).map Placed.address := by
  induction varInfo generalizing i with
  | nil => rfl
  | cons info rest ih =>
    obtain ⟨hdup, hgroup, hrest⟩ := checkVarInfoFrom_cons h
    rw [findByHeader, placed_cons, find?_append]
    by_cases hkey : info.key.toNat = phdr.getKey
    · rw [if_neg (not_not.2 hkey)]
      -- The row that has the key decides, since no later row has it.
      have hlater : info.content ≠ .nullGroup → (placed ptrs rest).find? (hits phdr) = none := by
        intro hne
        rw [find?_eq_none]
        intro v hv hhits
        refine key_ne_of_duplicateKey (hdup hne) hv (UInt16.toNat_inj.1 ?_)
        simp only [hits, decide_eq_true_eq] at hhits
        rw [hhits.1, hkey]
      unfold Info.placed
      cases hcontent : info.content with
      | var type d =>
        rw [ih hrest, hlater (by simp [hcontent]), or_none]
        cases getBase ptrs info with
        | none => simp
        | some base =>
          by_cases htype : type.code = phdr.type
          · simp [htype, hits, hkey]
          · simp [htype, hits]
      | group g =>
        obtain ⟨n, hn⟩ := hgroup g hcontent
        rw [hlater (by simp [hcontent]), or_none]
        cases hbase : getBase ptrs info with
        | none => exact findByHeaderGroup_none hbase ..
        | some base => exact findByHeaderGroup_eq hbase hkey hn
      | nullGroup =>
        rw [ih hrest]
        cases getBase ptrs info <;> rfl
    · have hhead : (info.placed ptrs).find? (hits phdr) = none := by
        rw [find?_eq_none]
        intro v hv hhits
        simp only [hits, decide_eq_true_eq] at hhits
        exact hkey (by rw [← key_of_mem_placed hv, hhits.1])
      rw [if_pos hkey, ih hrest, hhead, none_or]

end ByHeader

/-! ## By address -/

theorem address_add (a b : ℤ) : address ((address a : ℤ) + b) = address (a + b) := by
  unfold address
  omega

theorem address_sub (a b : ℤ) : address (b - (address a : ℤ)) = address (b - a) := by
  unfold address
  omega

/-- The address is the one of the variable or of an element. -/
def covers (this : ℕ) (v : Placed) : Bool :=
  this = v.address ∨ insideVector v.type this v.address = true

/-- The element of a vector at the address. -/
def element (this : ℕ) (v : Placed) : ℕ :=
  if this = v.address then 0 else vectorElement this v.address

/-- What `save` uses of the rows that were found. -/
def Found.summary (found : Found) : VarId × Single × ℕ := (found.id, found.defValue, found.idx)

/-- What a lookup tells of the variable. -/
def Placed.summary (this : ℕ) (v : Placed) : VarId × Single × ℕ :=
  (v.toVarId, v.defValue, element this v)

theorem insideVector_address (type : VarType) (this : ℕ) (start : ℤ) :
    insideVector type this (address start) = insideVector type this start := by
  simp only [insideVector, address_add]

theorem vectorElement_address (this : ℕ) (start : ℤ) :
    vectorElement this (address start) = vectorElement this start := by
  rw [vectorElement, address_sub, vectorElement]

section ByAddress

variable {ptrs : Pointers} {this : ℕ}

theorem summary_ite {v : Placed} {type : VarType} {start : ℤ} (htype : v.type = type)
    (hv : v.address = address start) {found found' : Found} {rest : Option Found}
    {vs : List Placed} (hfound : found.summary = (v.toVarId, v.defValue, 0))
    (hfound' : found'.summary = (v.toVarId, v.defValue, vectorElement this start))
    (hrest : rest.map summary = (vs.find? (covers this)).map (Placed.summary this)) :
    (if this = address start then some found
      else if insideVector type this start then some found' else rest).map summary =
        ((v :: vs).find? (covers this)).map (Placed.summary this) := by
  subst htype
  have hcovers : covers this v = true ↔
      this = address start ∨ insideVector v.type this start = true := by
    rw [covers, decide_eq_true_eq, hv, insideVector_address]
  split_ifs with hstart hinside
  · rw [find?_cons_of_pos (hcovers.2 (.inl hstart)), map_some, map_some, hfound,
      Placed.summary, element, if_pos (hstart.trans hv.symm)]
  · rw [find?_cons_of_pos (hcovers.2 (.inr hinside)), map_some, map_some,
      hfound', Placed.summary, element, if_neg (by rwa [hv]), hv, vectorElement_address]
  · rw [find?_cons_of_neg (fun h => (hcovers.1 h).elim hstart hinside), hrest]

theorem summary_append {x rest : Option Found} {us vs : List Placed}
    (hx : x.map summary = (us.find? (covers this)).map (Placed.summary this))
    (hrest : rest.map summary = (vs.find? (covers this)).map (Placed.summary this)) :
    (match x with
      | some found => some found
      | none => rest).map summary =
        ((us ++ vs).find? (covers this)).map (Placed.summary this) := by
  rw [find?_append]
  cases x with
  | some found =>
    obtain ⟨v, hv, hsummary⟩ := map_eq_some_iff.1 hx.symm
    rw [hv, some_or, map_some, map_some, hsummary]
  | none =>
    rw [map_none, eq_comm, map_eq_none_iff] at hx
    rw [hx, none_or, hrest]

theorem findVarInfoGroup_eq (info : Info) (base : ℤ) {g : GroupInfo} {groupBase shift n used : ℕ}
    {offset : ℤ} {nesting : List Row} (h : checkGroupInfo g shift n used = true)
    (hshift : shift = groupLevelShift * nesting.length) :
    (findVarInfoGroup ptrs info base this g groupBase shift offset nesting).map summary =
      ((placedGroup ptrs info base g groupBase shift offset).find? (covers this)).map
        (Placed.summary this) := by
  induction g generalizing groupBase shift n used offset nesting with
  | groupEnd => rfl
  | var row type d rest ih =>
    obtain ⟨-, -, hrest⟩ := checkGroupInfo_var h
    refine summary_ite ?_ ?_ ?_ ?_ (ih hrest hshift)
    all_goals rfl
  | group row groupInfo rest ihg ih =>
    obtain ⟨-, hbits, ⟨m, hsub⟩, hrest⟩ := checkGroupInfo_group h
    have hlevel : ¬nesting.length ≥ numlevels := by
      simp only [groupLevelShift, groupBits, numlevels] at *
      omega
    have hshift' : shift + groupLevelShift = groupLevelShift * (nesting ++ [row]).length := by
      rw [hshift, length_append, length_singleton, mul_add, mul_one]
    rw [findVarInfoGroup, placedGroup, if_neg (not_le.2 hbits)]
    cases adjustGroupOffset ptrs info row offset with
    | none => exact ih hrest hshift
    | some newOffset =>
      simp only [if_neg hlevel]
      exact summary_append (ihg hsub hshift') (ih hrest hshift)
  | nullGroup row rest ih => exact ih (checkGroupInfo_nullGroup h) hshift

theorem findVarInfo_eq {i : ℕ} {varInfo : List Info} (h : checkVarInfoFrom i varInfo = true) :
    (findVarInfo ptrs this varInfo).map summary =
      ((placed ptrs varInfo).find? (covers this)).map (Placed.summary this) := by
  induction varInfo generalizing i with
  | nil => rfl
  | cons info rest ih =>
    obtain ⟨-, hgroup, hrest⟩ := checkVarInfoFrom_cons h
    rw [findVarInfo, placed_cons, Info.placed]
    cases getBase ptrs info with
    | none => exact ih hrest
    | some base =>
      cases hcontent : info.content with
      | var type d =>
        refine summary_ite ?_ ?_ ?_ ?_ (ih hrest)
        all_goals rfl
      | group g =>
        obtain ⟨n, hn⟩ := hgroup g hcontent
        exact summary_append (findVarInfoGroup_eq info base hn rfl) (ih hrest)
      | nullGroup => exact ih hrest

end ByAddress

end Tm4cPilot.Param
