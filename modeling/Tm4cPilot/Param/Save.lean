import Tm4cPilot.Param.Lookup

/-!
# What `save` does to a log

`save` replaces the data of the record with the header of the variable, or appends a record, which
is part of the log only if its header does not count as the sentinal.
-/

namespace Tm4cPilot.Param

open List ParamHeader Memory
open StorageManager (Layout view size)

/-! ## Headers of variables -/

theorem VarType.code_lt (type : VarType) : type.code < 6 := by
  cases type <;> decide

theorem VarType.code_injective : Function.Injective VarType.code := by
  intro a b h
  cases a <;> cases b <;> first | rfl | cases h

@[simp] theorem VarId.header_type (v : VarId) : (v.header.type : ℕ) = v.type.code := by
  have := v.type.code_lt
  simp only [header, Fin.val_ofNat]
  omega

theorem VarId.header_getKey (v : VarId) : v.header.getKey = v.key.toNat % 512 := by
  simp only [header, getKey, Fin.val_ofNat]
  omega

theorem VarId.header_groupElement (v : VarId) :
    (v.header.groupElement : ℕ) = v.groupElement % 2 ^ 18 := by
  simp only [header, Fin.val_ofNat]

theorem VarId.header_ne_sentinal (v : VarId) : v.header ≠ sentinal := by
  intro h
  have htype := v.header_type
  have hlt := v.type.code_lt
  rw [h, ← htype] at *
  exact absurd hlt (by decide)

/-- Which headers count as the sentinal. -/
theorem VarId.isSentinal_header (v : VarId) (h : v.groupElement < 2 ^ 18) :
    isSentinal v.header = true ↔ v.key.toNat % 512 = 511 ∨ v.groupElement = 255 := by
  have htype : v.header.type ≠ 0x1F := by
    intro heq
    have hcode := v.header_type
    rw [heq] at hcode
    have := v.type.code_lt
    simp at hcode
    omega
  have hgroup : v.header.groupElement = 0xFF ↔ v.groupElement = 255 := by
    rw [Fin.ext_iff, header_groupElement, Nat.mod_eq_of_lt h]
    rfl
  rw [isSentinal, decide_eq_true_eq, header_getKey, hgroup]
  simp only [htype, false_or]

theorem identifiers_lt {g : GroupInfo} {k n used : ℕ} (hk : k < 3)
    (h : checkGroupInfo g (6 * k) n used = true) {id : ℕ} (hid : id ∈ identifiers g (6 * k)) :
    id < 64 ^ (3 - k) := by
  induction g generalizing k n used id with
  | groupEnd => cases hid
  | var row _ _ rest ih =>
    obtain ⟨hidx, -, hrest⟩ := checkGroupInfo_var h
    rcases mem_cons.1 hid with rfl | hid
    · exact (field_lt _ hidx).trans_le (Nat.le_self_pow (by omega) 64)
    · exact ih hk hrest hid
  | group row groupInfo rest ihg ih =>
    obtain ⟨hidx, hbits, ⟨m, hsub⟩, hrest⟩ := checkGroupInfo_group h
    rcases mem_append.1 hid with hid | hid
    · obtain ⟨id', hid', rfl⟩ := mem_map.1 hid
      have hk' : k + 1 < 3 := by
        simp only [groupLevelShift, groupBits] at hbits
        omega
      have hlt := ihg (k := k + 1) hk' hsub hid'
      have hpow : 64 ^ (3 - k) = 64 * 64 ^ (3 - (k + 1)) := by
        rw [← pow_succ']
        congr 1
        omega
      have := field_lt (6 * k) hidx
      omega
    · exact ih hk hrest hid
  | nullGroup _ rest ih => exact ih hk (checkGroupInfo_nullGroup h) hid

theorem groupElement_lt {i : ℕ} {varInfo : List Info} (h : checkVarInfoFrom i varInfo = true)
    {v : VarId} (hv : v ∈ vars varInfo) : v.groupElement < 2 ^ 18 := by
  induction varInfo generalizing i with
  | nil => cases hv
  | cons info rest ih =>
    obtain ⟨-, hgroup, hrest⟩ := checkVarInfoFrom_cons h
    rcases mem_append.1 hv with hv | hv
    · unfold Info.vars at hv
      cases hcontent : info.content with
      | var type d =>
        simp only [hcontent, mem_singleton] at hv
        simp [hv]
      | group g =>
        obtain ⟨n, hn⟩ := hgroup g hcontent
        simp only [hcontent] at hv
        obtain ⟨leaf, hleaf, rfl⟩ := mem_map.1 hv
        have hmem : leaf.1 ∈ (leaves g 0 0).map Prod.fst := mem_map_of_mem hleaf
        rw [leaves_eq_identifiers] at hmem
        obtain ⟨id, hid, hleaf⟩ := mem_map.1 hmem
        have hlt := identifiers_lt (k := 0) (by omega) hn hid
        simp only [pow_zero, mul_one, zero_add] at hleaf
        rw [← hleaf]
        exact hlt
      | nullGroup => simp [hcontent] at hv
    · exact ih hrest hv

theorem mem_vars_of_findVarInfo {varInfo : List Info} (hcheck : checkVarInfo varInfo = true)
    {ptrs : Pointers} {this : ℕ} {found : Found} (h : findVarInfo ptrs this varInfo = some found) :
    found.id ∈ vars varInfo ∧ (found.type = .vector3f ∨ found.idx = 0) := by
  have hsummary : (findVarInfo ptrs this varInfo).map Found.summary =
      ((placed ptrs varInfo).find? (covers this)).map (Placed.summary this) := findVarInfo_eq hcheck
  rw [h, Option.map_some, eq_comm, Option.map_eq_some_iff] at hsummary
  obtain ⟨v, hv, hsummary⟩ := hsummary
  have hid : v.toVarId = found.id := congrArg Prod.fst hsummary
  have hidx : element this v = found.idx := congrArg (fun t => t.2.2) hsummary
  have hcovers := List.find?_some hv
  simp only [covers, insideVector, decide_eq_true_eq] at hcovers
  refine ⟨?_, ?_⟩
  · rw [← hid]
    exact (placed_sublist ptrs varInfo).mem (mem_map_of_mem (mem_of_find?_eq_some hv))
  · rcases hcovers with hstart | hinside
    · rw [← hidx, element, if_pos hstart]
      exact .inr rfl
    · have htype : v.type = found.type := congrArg VarId.type hid
      exact .inl (htype ▸ hinside.1)

section Storage

variable {layout : Layout} {storage : ℕ → UInt8} {records : List Record}

theorem log_applyWrites {writes : List Write} {n : ℕ}
    (hw : ∀ w ∈ writes, w.Inside (size layout .param))
    (h : Log (writes.foldl (fun m w => writeBlock m w.ofs w.data)
    (view layout .param storage)) n records) (hn : n ≤ size layout .param) :
    Log (view layout .param (applyWrites layout storage writes)) n records :=
  h.congr fun a ha => view_applyWrites hw (by
    have := h.fits
    omega)

theorem log_eraseAll (h : 8 ≤ size layout .param) (storage : ℕ → UInt8) :
    Log (view layout .param (applyWrites layout storage eraseAll)) (size layout .param) [] := by
  refine log_applyWrites ?_ ⟨?_, ?_, ?_, ?_⟩ le_rfl
  · simp only [eraseAll, writeSentinal, forall_mem_cons, Write.Inside,
      length_bytes, eepromHeader, length_cons, length_nil]
    exact ⟨by omega, by omega, by simp⟩
  · exact (holds_writeBlock ..).writeBlock (.inl le_rfl)
  · exact holds_nil ..
  · exact holds_writeBlock ..
  · exact h

theorem size_lt (layout : Layout) : size layout .param < 2 ^ 16 := by
  rw [StorageManager.size_eq_capacity]
  exact (StorageManager.capacity_le_sum _).trans_lt layout.small

/-! ## Saving -/

variable {stack : ParamHeader} {varInfo : List Info} {ptrs : Pointers} {ram : ℕ → UInt8}
  {this : ℕ} {forceSave : Bool}

/-- The bytes to save. -/
def Found.value (found : Found) (ram : ℕ → UInt8) (this : ℕ) : List UInt8 :=
  Memory.readBlock ram (found.start this) (typeSize found.type.code)

@[simp] theorem Found.length_value (found : Found) (ram : ℕ → UInt8) (this : ℕ) :
    (found.value ram this).length = typeSize found.type.code := by
  simp [value]

theorem save_false (h : (save layout storage stack varInfo ptrs ram this forceSave).1 = false) :
    (save layout storage stack varInfo ptrs ram this forceSave).2 = [] := by
  revert h
  unfold save
  cases findVarInfo ptrs this varInfo with
  | none => exact fun _ => rfl
  | some found =>
    dsimp only
    generalize scan layout storage stack found.id.header = answer
    obtain ⟨_ | _, ofs⟩ := answer
    all_goals
      dsimp only
      split_ifs <;> simp

/-- The record of the variable is replaced. -/
theorem save_of_mem {found : Found} (hfind : findVarInfo ptrs this varInfo = some found)
    (hidx : found.type = .vector3f ∨ found.idx = 0) {pre post : List Record} {r : Record}
    (h : Log (view layout .param storage) (size layout .param) (pre ++ r :: post))
    (hr : r.header = found.id.header) (hpre : ∀ r' ∈ pre, r'.header ≠ r.header) :
    save layout storage stack varInfo ptrs ram this forceSave =
      (true, [⟨logEnd pre + 4, found.value ram this⟩]) := by
  have hscan := h.scan_mem hpre stack
  rw [hr] at hscan
  unfold save
  rw [hfind]
  simp only [hscan, VarId.header_type]
  rw [if_neg (by tauto)]
  rfl

/-- A record is appended, if there is room. -/
theorem save_of_notMem (stack : ParamHeader) (ram : ℕ → UInt8) (forceSave : Bool) {found : Found}
    (hfind : findVarInfo ptrs this varInfo = some found)
    (hidx : found.type = .vector3f ∨ found.idx = 0)
    (h : Log (view layout .param storage) (size layout .param) records)
    (hne : ∀ r ∈ records, r.header ≠ found.id.header) :
    save layout storage stack varInfo ptrs ram this forceSave =
      if !forceSave && isDefault found.type (found.value ram this) found.defValue then (true, [])
      else if logEnd records + typeSize found.type.code + 2 * 4 ≥ size layout .param then (false, [])
      else (true, [writeSentinal (logEnd records + 4 + typeSize found.type.code),
        ⟨logEnd records + 4, found.value ram this⟩, ⟨logEnd records, found.id.header.bytes⟩]) := by
  have hscan := h.scan_notMem hne (VarId.header_ne_sentinal _) stack
  have hend : logEnd records ≠ 0xFFFF := by
    have := size_lt layout
    have := h.fits
    omega
  unfold save
  rw [hfind]
  simp only [hscan, VarId.header_type, hend, if_false]
  rw [if_neg (by tauto)]
  rfl

theorem typeSize_le (n : ℕ) : typeSize n ≤ 12 := by
  unfold typeSize
  split <;> omega

theorem log_replace {pre post : List Record} {r : Record}
    (h : Log (view layout .param storage) (size layout .param) (pre ++ r :: post)) (r' : Record)
    (hr : r'.header = r.header) :
    Log (view layout .param (applyWrites layout storage [⟨logEnd pre + 4, r'.data⟩]))
      (size layout .param) (pre ++ r' :: post) := by
  refine log_applyWrites ?_ (h.update hr) le_rfl
  have hfits := (h.update hr).fits
  have := typeSize_le r'.header.type
  rw [logEnd, image_append, image_cons, length_append, length_append,
    r'.length_bytes, ← r'.length_data] at hfits
  simp only [mem_singleton, forall_eq, Write.Inside, logEnd]
  rw [r'.length_data] at *
  omega

theorem log_append (h : Log (view layout .param storage) (size layout .param) records) (r : Record)
    (hroom : logEnd records + r.data.length + 2 * 4 ≤ size layout .param) :
    Log (view layout .param (applyWrites layout storage
      [writeSentinal (logEnd records + 4 + r.data.length), ⟨logEnd records + 4, r.data⟩,
        ⟨logEnd records, r.header.bytes⟩])) (size layout .param) (records ++ [r]) := by
  refine log_applyWrites ?_ (h.append r hroom) le_rfl
  have := typeSize_le r.header.type
  have := r.length_data
  simp only [writeSentinal, forall_mem_cons, Write.Inside, length_bytes]
  exact ⟨by omega, by omega, by omega, by simp⟩

/-- An appended header that counts as the sentinal ends `load_all` behind the old records. -/
theorem loadAll_append_sentinal
    (h : Log (view layout .param storage) (size layout .param) records) {phdr : ParamHeader}
    (hs : isSentinal phdr = true) (data : List UInt8) (hdata : data.length < 256)
    (hroom : logEnd records + data.length + 2 * 4 ≤ size layout .param) (varInfo : List Info)
    (ptrs : Pointers) (stack : ParamHeader) (ram : ℕ → UInt8) :
    loadAll layout (applyWrites layout storage [writeSentinal (logEnd records + 4 + data.length),
      ⟨logEnd records + 4, data⟩, ⟨logEnd records, phdr.bytes⟩]) varInfo ptrs stack ram =
        (true, records.foldl (load varInfo ptrs) ram) := by
  have hlog : logEnd records = 4 + (image records).length := rfl
  have hview : ∀ a < logEnd records + 4, view layout .param (applyWrites layout storage
      [writeSentinal (logEnd records + 4 + data.length), ⟨logEnd records + 4, data⟩,
        ⟨logEnd records, phdr.bytes⟩]) a =
      writeBlock (view layout .param storage) (logEnd records) phdr.bytes a := by
    intro a ha
    rw [view_applyWrites _ (by omega)]
    · simp only [foldl_cons, foldl_nil, writeSentinal]
      unfold writeBlock
      by_cases hin : logEnd records ≤ a
      · rw [updateBlock_apply_in _ _ hin (by rw [length_bytes]; omega),
          updateBlock_apply_in _ _ hin (by rw [length_bytes]; omega)]
      · rw [updateBlock_apply_out _ _ (by omega), updateBlock_apply_out _ _ (by omega),
          updateBlock_apply_out _ _ (by omega), updateBlock_apply_out _ _ (by omega)]
    · simp only [writeSentinal, forall_mem_cons, Write.Inside, length_bytes]
      exact ⟨by omega, by omega, by omega, by simp⟩
  refine loadAll_of_holds varInfo ptrs stack ram ?_ h.fits ?_
  · exact (h.middle.writeBlock (.inl hlog.ge)).congr fun a _ ha => hview a (by omega)
  · rw [headerAt_of_holds ((holds_writeBlock _ _ phdr.bytes).congr fun a _ ha =>
      hview a (by rwa [length_bytes] at ha)), hs]

end Storage

end Tm4cPilot.Param
