import Tm4cPilot.Param.Save

/-!
# Saved values after a reboot

At a reboot `load_all` reads the records over the defaults. `save` without force does not store a
value that it takes for the default, so a value close to the default is lost.
-/

namespace Tm4cPilot.Param

open List Memory Option
open StorageManager (Layout view size)

/-- The bytes of the variable. -/
def Placed.size (v : Placed) : ℕ := typeSize v.type.code

/-- The bytes of the variable in RAM. -/
def cells (ram : ℕ → UInt8) (v : Placed) : List UInt8 := Memory.readBlock ram v.address v.size

/-- The variables do not overlap. -/
def Placed.Apart (v w : Placed) : Prop :=
  v.address + v.size ≤ w.address ∨ w.address + w.size ≤ v.address
deriving Decidable

instance : Std.Symm Placed.Apart := ⟨fun _ _ h => h.symm⟩

/-- Variables lie apart from each other in memory. -/
structure Spread (vs : List Placed) : Prop where
  apart : vs.Pairwise Placed.Apart
  inside : ∀ v ∈ vs, v.address + v.size ≤ 2 ^ 32

theorem Placed.size_pos (v : Placed) : 0 < v.size := by
  unfold size
  cases v.type <;> decide

variable {v : Placed} {bytes : List UInt8}

theorem cells_writeBlock_of_apart {ram : ℕ → UInt8} {w : Placed} (h : v.Apart w)
    (hlen : bytes.length = w.size) :
    cells (writeBlock ram w.address bytes) v = cells ram v := by
  refine readBlock_writeBlock_out ram ?_
  rw [hlen]
  exact h

theorem cells_writeBlock_self {ram : ℕ → UInt8} (hlen : bytes.length = v.size) :
    cells (writeBlock ram v.address bytes) v = bytes := by
  rw [cells, ← hlen]
  exact readBlock_writeBlock_same ..

/-- Every variable is set to its default. -/
def setDefaults (vs : List Placed) (ram : ℕ → UInt8) : ℕ → UInt8 :=
  vs.foldl (fun ram v => match setValue v.type v.defValue with
    | some bytes => Memory.writeBlock ram v.address bytes
    | none => ram) ram

theorem length_setValue {type : VarType} {d : Single} (h : setValue type d = some bytes) :
    bytes.length = typeSize type.code := by
  cases type with
  | vector3f => cases h
  | _ =>
    obtain rfl := some_inj.1 h
    exact length_toBytes ..

theorem cells_setDefaults_of_apart {vs : List Placed} (h : ∀ w ∈ vs, v.Apart w) (ram : ℕ → UInt8) :
    cells (setDefaults vs ram) v = cells ram v := by
  induction vs generalizing ram with
  | nil => rfl
  | cons w vs ih =>
    obtain ⟨hw, hvs⟩ := forall_mem_cons.1 h
    unfold setDefaults at ih ⊢
    rw [foldl_cons, ih hvs]
    cases hset : setValue w.type w.defValue with
    | none => rfl
    | some bytes => exact cells_writeBlock_of_apart hw (length_setValue hset)

theorem cells_setDefaults {vs : List Placed} (h : Spread vs) (hv : v ∈ vs)
    (hset : setValue v.type v.defValue = some bytes) (ram : ℕ → UInt8) :
    cells (setDefaults vs ram) v = bytes := by
  obtain ⟨pre, post, rfl⟩ := append_of_mem hv
  have hpost : ∀ w ∈ post, v.Apart w :=
    (pairwise_cons.1 (pairwise_append.1 h.apart).2.1).1
  have hsplit : setDefaults (pre ++ v :: post) ram =
      setDefaults post (writeBlock (setDefaults pre ram) v.address bytes) := by
    simp only [setDefaults, foldl_append, foldl_cons, hset]
  rw [hsplit, cells_setDefaults_of_apart hpost, cells_writeBlock_self (length_setValue hset)]

/-! ## The lookups of a variable -/

section Lookup

variable {varInfo : List Info} {ptrs : Pointers} {v w : Placed}

section

variable (hv : v ∈ placed ptrs varInfo)
include hv

theorem mem_vars_of_mem_placed : v.toVarId ∈ vars varInfo :=
  (placed_sublist ptrs varInfo).mem (mem_map_of_mem hv)

theorem eq_of_toVarId_eq (hids : (vars varInfo).Nodup) (hw : w ∈ placed ptrs varInfo)
    (h : w.toVarId = v.toVarId) : w = v :=
  inj_on_of_nodup_map ((placed_sublist ptrs varInfo).nodup hids) hw hv h

theorem Spread.eq_of_covers (h : Spread (placed ptrs varInfo)) (hw : w ∈ placed ptrs varInfo)
    (hcovers : covers v.address w = true) : w = v := by
  by_contra hne
  have hapart : w.Apart v := h.apart.forall hw hv hne
  have hinside := h.inside w hw
  have hpos := v.size_pos
  have hpos' := w.size_pos
  unfold Placed.Apart at hapart
  rw [covers, decide_eq_true_eq, insideVector, decide_eq_true_eq] at hcovers
  rcases hcovers with heq | ⟨htype, heq⟩
  · omega
  · have hsize : w.size = 12 := by
      unfold Placed.size
      rw [htype]
      rfl
    unfold address at heq
    omega

theorem exists_found (hcheck : checkVarInfo varInfo = true) (h : Spread (placed ptrs varInfo)) :
    ∃ found, findVarInfo ptrs v.address varInfo = some found ∧ found.id = v.toVarId ∧
      found.defValue = v.defValue ∧ found.idx = 0 := by
  have hfind : (findVarInfo ptrs v.address varInfo).map Found.summary =
      ((placed ptrs varInfo).find? (covers v.address)).map (Placed.summary v.address) :=
    findVarInfo_eq hcheck
  have hself : covers v.address v = true := by simp [covers]
  obtain ⟨w, hw⟩ := isSome_iff_exists.1 (find?_isSome.2 ⟨v, hv, hself⟩)
  obtain rfl := h.eq_of_covers hv (mem_of_find?_eq_some hw) (find?_some hw)
  rw [hw, map_some] at hfind
  obtain ⟨found, hfound, hsummary⟩ := map_eq_some_iff.1 hfind
  simp only [Found.summary, Placed.summary, element, if_true, Prod.mk.injEq] at hsummary
  exact ⟨found, hfound, hsummary⟩

end

variable {info : Info}

theorem top_of_mem_placedGroup {base : ℤ} {g : GroupInfo} {groupBase shift : ℕ} {offset : ℤ}
    (h : w ∈ placedGroup ptrs info base g groupBase shift offset) : w.top = false := by
  induction g generalizing groupBase shift offset with
  | groupEnd => cases h
  | var row type d rest ih =>
    rcases mem_cons.1 h with rfl | h
    · rfl
    · exact ih h
  | group row groupInfo rest ihg ih =>
    rcases mem_append.1 h with h | h
    · cases hadjust : adjustGroupOffset ptrs info row offset with
      | none => simp [hadjust] at h
      | some newOffset =>
        simp only [hadjust] at h
        exact ihg h
    · exact ih h
  | nullGroup _ rest ih => exact ih h

theorem eq_of_top_of_mem_placed (hv : v ∈ info.placed ptrs) (hw : w ∈ info.placed ptrs)
    (htop : w.top = true) : v = w := by
  unfold Info.placed at hv hw
  cases hbase : getBase ptrs info with
  | none => simp [hbase] at hv
  | some base =>
    cases hcontent : info.content with
    | var type d =>
      simp only [hbase, hcontent, mem_singleton] at hv hw
      rw [hv, hw]
    | group g =>
      simp only [hbase, hcontent] at hw
      rw [top_of_mem_placedGroup hw] at htop
      cases htop
    | nullGroup => simp [hbase, hcontent] at hv

theorem content_ne_nullGroup (hv : v ∈ info.placed ptrs) : info.content ≠ .nullGroup := by
  intro hnull
  unfold Info.placed at hv
  rw [hnull] at hv
  cases hbase : getBase ptrs info <;> simp [hbase] at hv

theorem eq_of_top {i : ℕ} (hcheck : checkVarInfoFrom i varInfo = true)
    (hv : v ∈ placed ptrs varInfo) (hw : w ∈ placed ptrs varInfo) (htop : w.top = true)
    (hkey : v.key = w.key) : v = w := by
  induction varInfo generalizing i with
  | nil => cases hv
  | cons info rest ih =>
    obtain ⟨hdup, -, hrest⟩ := checkVarInfoFrom_cons hcheck
    rw [placed_cons, mem_append] at hv hw
    rcases hv with hv | hv <;> rcases hw with hw | hw
    · exact eq_of_top_of_mem_placed hv hw htop
    · exact absurd (hkey.symm.trans (key_of_mem_placed hv))
        (key_ne_of_duplicateKey (hdup (content_ne_nullGroup hv)) hw)
    · exact absurd (hkey.trans (key_of_mem_placed hw))
        (key_ne_of_duplicateKey (hdup (content_ne_nullGroup hw)) hv)
    · exact ih hrest hv hw

theorem eq_of_hits (hcheck : checkVarInfo varInfo = true) (hids : (vars varInfo).Nodup)
    (hv : v ∈ placed ptrs varInfo) (hw : w ∈ placed ptrs varInfo) {phdr : ParamHeader}
    (hhv : hits phdr v = true) (hhw : hits phdr w = true) : w = v := by
  simp only [hits, decide_eq_true_eq] at hhv hhw
  have hkey : v.key = w.key := UInt16.toNat_inj.1 (hhv.1.trans hhw.1.symm)
  rcases hhw.2.2 with htop | hgroup
  · exact (eq_of_top hcheck hv hw htop hkey).symm
  · rcases hhv.2.2 with htop | hgroup'
    · exact eq_of_top hcheck hw hv htop hkey.symm
    · have htype : w.type = v.type := VarType.code_injective (hhw.2.1.trans hhv.2.1.symm)
      exact eq_of_toVarId_eq hv hids hw (VarId.ext hkey.symm (hgroup.trans hgroup'.symm) htype)

end Lookup

/-- The last record that `load_all` takes for a variable. -/
def lastHit (v : Placed) (records : List Record) : Option Record :=
  records.reverse.find? fun r => hits r.header v

/-- What `load_all` leaves in a variable that held `bytes`. -/
def restored (v : Placed) (records : List Record) (bytes : List UInt8) : List UInt8 :=
  ((lastHit v records).map Record.data).getD bytes

theorem lastHit_concat (v : Placed) (records : List Record) (r : Record) :
    lastHit v (records ++ [r]) = if hits r.header v then some r else lastHit v records := by
  unfold lastHit
  rw [reverse_append, reverse_singleton, singleton_append, find?_cons]
  cases hits r.header v <;> rfl

section Load

variable {varInfo : List Info} {ptrs : Pointers} {v : Placed}
variable (hcheck : checkVarInfo varInfo = true) (hids : (vars varInfo).Nodup)
  (h : Spread (placed ptrs varInfo)) (hv : v ∈ placed ptrs varInfo) (ram : ℕ → UInt8)
include hcheck hids h hv

theorem cells_load (r : Record) :
    cells (load varInfo ptrs ram r) v = if hits r.header v then r.data else cells ram v := by
  unfold load
  rw [findByHeader_eq hcheck]
  cases hfind : (placed ptrs varInfo).find? (hits r.header) with
  | none =>
    rw [find?_eq_none] at hfind
    rw [if_neg (hfind v hv)]
    rfl
  | some w =>
    have hw := mem_of_find?_eq_some hfind
    have hhits := find?_some hfind
    have hlen : r.data.length = w.size := by
      have htype := hhits
      simp only [hits, decide_eq_true_eq] at htype
      rw [r.length_data, Placed.size, htype.2.1]
    by_cases heq : w = v
    · subst heq
      rw [if_pos hhits]
      exact cells_writeBlock_self hlen
    · rw [if_neg fun hhv => heq (eq_of_hits hcheck hids hv hw hhv hhits)]
      exact cells_writeBlock_of_apart (h.apart.forall hv hw (Ne.symm heq)) hlen

theorem cells_foldl_load (records : List Record) :
    cells (records.foldl (load varInfo ptrs) ram) v = restored v records (cells ram v) := by
  induction records using reverseRecOn with
  | nil => rfl
  | append_singleton records r ih =>
    rw [foldl_concat, cells_load hcheck hids h hv, ih, restored, restored, lastHit_concat]
    split_ifs <;> rfl

end Load

section LastHit

variable {v : Placed} {records : List Record}

theorem lastHit_split (v : Placed) (pre post : List Record) (r : Record) :
    lastHit v (pre ++ r :: post) =
      (lastHit v post).or (if hits r.header v then some r else lastHit v pre) := by
  unfold lastHit
  rw [reverse_append, reverse_cons, append_assoc, find?_append,
    singleton_append, find?_cons]
  cases hits r.header v <;> rfl

theorem mem_of_lastHit {r : Record} (h : lastHit v records = some r)  : r ∈ records :=
  mem_reverse.1 (mem_of_find?_eq_some h)

theorem hits_header (h : v.groupElement < 2 ^ 18) : hits v.header v = true ↔ v.key.toNat < 512 := by
  simp only [hits, decide_eq_true_eq, VarId.header_getKey, VarId.header_type,
    VarId.header_groupElement, Nat.mod_eq_of_lt h, or_true, and_true]
  omega

end LastHit

/-! ## Reboots -/

section Reboot

variable {layout : Layout} {storage : ℕ → UInt8} {stack : ParamHeader} {varInfo : List Info}
  {ptrs : Pointers} {ram : ℕ → UInt8} {records : List Record} {v : Placed}

/-- The RAM after a reboot. -/
def reboot (layout : Layout) (storage : ℕ → UInt8) (stack : ParamHeader) (varInfo : List Info)
    (ptrs : Pointers) (garbage : ℕ → UInt8) : ℕ → UInt8 :=
  (loadAll layout storage varInfo ptrs stack (setDefaults (placed ptrs varInfo) garbage)).2

/-- The default as bytes. -/
def Placed.defaultBytes (v : Placed) : List UInt8 := toBytes v.size v.defValue.toInt32

/-- The variable is an integer. -/
def Placed.IsInt (v : Placed) : Prop := v.type = .int8 ∨ v.type = .int16 ∨ v.type = .int32

theorem Placed.IsInt.setValue_eq (h : v.IsInt) : setValue v.type v.defValue = some v.defaultBytes := by
  unfold defaultBytes size
  rcases h with h | h | h <;> rw [h] <;> rfl

theorem restored_replace {pre post : List Record} {r : Record} (r' : Record) {bytes : List UInt8}
    (hnodup : ((pre ++ r :: post).map Record.header).Nodup) (hr : r'.header = r.header) :
    restored v (pre ++ r' :: post) bytes = r'.data ↔
      restored v (pre ++ r :: post) bytes = r'.data ∨
        (lastHit v (pre ++ r :: post)).map Record.header = some r.header := by
  have hpost : ∀ r₂ ∈ post, r₂.header ≠ r.header := by
    rw [map_append, map_cons, nodup_append', nodup_cons] at hnodup
    intro r₂ hr₂ heq
    exact hnodup.2.1.1 (heq ▸ mem_map_of_mem hr₂)
  have hpre : ∀ r₂ ∈ pre, r₂.header ≠ r.header := by
    rw [map_append, map_cons, nodup_append'] at hnodup
    intro r₂ hr₂ heq
    exact hnodup.2.2 (mem_map_of_mem hr₂) (heq ▸ mem_cons_self)
  unfold restored
  rw [lastHit_split, lastHit_split, hr]
  cases hlast : lastHit v post with
  | some r₂ => simp [hpost r₂ (mem_of_lastHit hlast)]
  | none =>
    by_cases hhits : hits r.header v = true
    · simp [hhits]
    · cases hlast' : lastHit v pre with
      | some r₂ => simp [hhits, hpre r₂ (mem_of_lastHit hlast')]
      | none => simp [hhits]

theorem exists_found_value (hcheck : checkVarInfo varInfo = true)
    (hspread : Spread (placed ptrs varInfo)) (hv : v ∈ placed ptrs varInfo) (ram : ℕ → UInt8) :
    ∃ found, findVarInfo ptrs v.address varInfo = some found ∧ found.id = v.toVarId ∧
      found.type = v.type ∧ found.defValue = v.defValue ∧ found.idx = 0 ∧
      found.value ram v.address = cells ram v := by
  obtain ⟨found, hfind, hid, hdef, hidx⟩ := exists_found hv hcheck hspread
  have htype : found.type = v.type := congrArg VarId.type hid
  refine ⟨found, hfind, hid, htype, hdef, hidx, ?_⟩
  rw [Found.value, Found.start, if_neg (by simp [hidx]), htype]
  rfl

variable (hcheck : checkVarInfo varInfo = true) (hids : (vars varInfo).Nodup)
  (hspread : Spread (placed ptrs varInfo)) (hv : v ∈ placed ptrs varInfo) (hint : v.IsInt)
include hcheck hids hspread hv hint

theorem cells_reboot {garbage : ℕ → UInt8}
    (hload : loadAll layout storage varInfo ptrs stack (setDefaults (placed ptrs varInfo) garbage) =
    (true, records.foldl (load varInfo ptrs) (setDefaults (placed ptrs varInfo) garbage))) :
    cells (reboot layout storage stack varInfo ptrs garbage) v =
      restored v records v.defaultBytes := by
  unfold reboot
  rw [hload, cells_foldl_load hcheck hids hspread hv,
    cells_setDefaults hspread hv hint.setValue_eq garbage]

theorem save_survives_of_mem (hlog : Log (view layout .param storage) (size layout .param) records)
    (hnodup : (records.map Record.header).Nodup) (hstored : ∃ r ∈ records, r.header = v.header)
    (garbage : ℕ → UInt8) :
    cells (reboot layout (applyWrites layout storage
      (save layout storage stack varInfo ptrs ram v.address false).2) stack varInfo ptrs garbage) v =
        cells ram v ↔
      restored v records v.defaultBytes = cells ram v ∨
        (lastHit v records).map Record.header = some v.header := by
  obtain ⟨found, hfind, hid, -, -, hidx, hvalue⟩ := exists_found_value hcheck hspread hv ram
  obtain ⟨pre, r, post, rfl, hr, hpre⟩ := exists_split hstored
  rw [← hr] at hpre
  rw [save_of_mem hfind (.inr hidx) hlog (by rw [hr, hid]) hpre, hvalue]
  let r' : Record := ⟨r.header, cells ram v, by
    rw [cells, length_readBlock, hr, VarId.header_type]
    rfl, r.not_sentinal⟩
  rw [← hr]
  show cells (reboot layout (applyWrites layout storage [⟨logEnd pre + 4, r'.data⟩]) stack varInfo
    ptrs garbage) v = r'.data ↔ _
  rw [cells_reboot hcheck hids hspread hv hint
    ((log_replace hlog r' rfl).loadAll varInfo ptrs stack _)]
  exact restored_replace r' hnodup rfl

/-- A new integer survives if its header ends no log and is taken for it. -/
theorem save_survives_of_notMem
    (hlog : Log (view layout .param storage) (size layout .param) records)
    (hstored : ∀ r ∈ records, r.header ≠ v.header)
    (hsave : (save layout storage stack varInfo ptrs ram v.address false).1 = true)
    (garbage : ℕ → UInt8) :
    cells (reboot layout (applyWrites layout storage
      (save layout storage stack varInfo ptrs ram v.address false).2) stack varInfo ptrs garbage) v =
        cells ram v ↔
      restored v records v.defaultBytes = cells ram v ∨
        (v.key.toNat < 511 ∧ v.groupElement ≠ 255 ∧
          isDefault v.type (cells ram v) v.defValue = false) := by
  obtain ⟨found, hfind, hid, htype, hdef, hidx, hvalue⟩ := exists_found_value hcheck hspread hv ram
  have hlt := groupElement_lt hcheck (mem_vars_of_mem_placed hv)
  have hcases := save_of_notMem stack ram false hfind (.inr hidx) hlog (by rwa [hid])
  rw [hvalue, htype, hdef, hid, Bool.not_false, Bool.true_and] at hcases
  rw [hcases] at hsave ⊢
  by_cases hdefault : isDefault v.type (cells ram v) v.defValue = true
  · have hnone : applyWrites layout storage [] = storage := rfl
    rw [if_pos hdefault, hnone,
      cells_reboot hcheck hids hspread hv hint (hlog.loadAll varInfo ptrs stack _)]
    simp [hdefault]
  · rw [if_neg hdefault] at hsave ⊢
    by_cases hroom : logEnd records + typeSize v.type.code + 2 * 4 ≥ size layout .param
    · rw [if_pos hroom] at hsave
      cases hsave
    · rw [if_neg hroom]
      have hlen : (cells ram v).length = typeSize v.type.code := by simp [cells, Placed.size]
      have halias := VarId.isSentinal_header v.toVarId hlt
      by_cases hs : isSentinal v.header = true
      · have hle := typeSize_le v.type.code
        have hload := loadAll_append_sentinal hlog hs (cells ram v) (by omega) (by omega) varInfo ptrs
          stack (setDefaults (placed ptrs varInfo) garbage)
        rw [hlen] at hload
        rw [cells_reboot hcheck hids hspread hv hint hload]
        have := halias.1 hs
        exact (or_iff_left (by omega)).symm
      · let r : Record := ⟨v.header, cells ram v, by rw [hlen, VarId.header_type], by simpa using hs⟩
        have hload := (log_append hlog r (show _ + (cells ram v).length + _ ≤ _ by omega)).loadAll
          varInfo ptrs stack (setDefaults (placed ptrs varInfo) garbage)
        rw [show r.data.length = _ from hlen] at hload
        rw [cells_reboot hcheck hids hspread hv hint hload, restored, lastHit_concat]
        by_cases hkey : v.key.toNat < 512
        · rw [if_pos ((hits_header hlt).2 hkey)]
          refine ⟨fun _ => .inr ⟨?_, fun hge => hs (halias.2 (.inr hge)), by simpa using hdefault⟩,
            fun _ => rfl⟩
          have : v.key.toNat % 512 ≠ 511 := fun hmod => hs (halias.2 (.inl hmod))
          omega
        · rw [if_neg fun hhits => hkey ((hits_header hlt).1 hhits)]
          exact (or_iff_left (by omega)).symm

end Reboot

/-- A saved integer survives exactly when the reboot gives it that value anyway, or its record is
the last one taken for it, or is appended with a good header. -/
theorem save_survives_iff {layout : Layout} {storage : ℕ → UInt8} {stack : ParamHeader}
    {varInfo : List Info} {ptrs : Pointers} {ram : ℕ → UInt8} {records : List Record} {v : Placed}
    (hcheck : checkVarInfo varInfo = true) (hids : (vars varInfo).Nodup)
    (hspread : Spread (placed ptrs varInfo)) (hv : v ∈ placed ptrs varInfo) (hint : v.IsInt)
    (hlog : Log (view layout .param storage) (size layout .param) records)
    (hnodup : (records.map Record.header).Nodup)
    (hsave : (save layout storage stack varInfo ptrs ram v.address false).1 = true)
    (garbage : ℕ → UInt8) :
    cells (reboot layout (applyWrites layout storage
      (save layout storage stack varInfo ptrs ram v.address false).2) stack varInfo ptrs garbage) v =
        cells ram v ↔
      restored v records v.defaultBytes = cells ram v ∨
      (lastHit v records).map Record.header = some v.header ∨
      (v.key.toNat < 511 ∧ v.groupElement ≠ 255 ∧ (∀ r ∈ records, r.header ≠ v.header) ∧
        isDefault v.type (cells ram v) v.defValue = false) := by
  by_cases hstored : ∃ r ∈ records, r.header = v.header
  · rw [save_survives_of_mem hcheck hids hspread hv hint hlog hnodup hstored garbage]
    obtain ⟨r, hr, hheader⟩ := hstored
    have hmem : ¬∀ r ∈ records, r.header ≠ v.header := fun hall => hall r hr hheader
    simp only [hmem, false_and, and_false, or_false]
  · push Not at hstored
    have hlast : (lastHit v records).map Record.header ≠ some v.header := by
      intro hsome
      obtain ⟨r, hr, hheader⟩ := map_eq_some_iff.1 hsome
      exact hstored r (mem_of_lastHit hr) hheader
    rw [save_survives_of_notMem hcheck hids hspread hv hint hlog hstored hsave garbage]
    rw [or_iff_right hlast, and_iff_right hstored]

/-- Two integers with defaults. -/
def tableInts : List Info :=
  [⟨['F'], 0, 1000, .var .int16 0x469C4000, 0⟩, ⟨['G'], 1, 2000, .var .int32 0x3F7FFFFF, 0⟩]

/-- An erased storage. -/
def emptyStorage : ℕ → UInt8 := applyWrites (StorageManager.layoutDefault .four) (fun _ => 0) eraseAll

/-- A RAM with bytes at an address. -/
def ramWith (a : ℕ) (bytes : List UInt8) : ℕ → UInt8 := Memory.writeBlock (fun _ => 0) a bytes

theorem save_survives_far :
    cells (reboot (StorageManager.layoutDefault .four) (applyWrites (StorageManager.layoutDefault .four)
      emptyStorage (save (StorageManager.layoutDefault .four) emptyStorage sentinal tableInts
        (fun _ => 0) (ramWith 1000 (toBytes 2 30000)) 1000 false).2) sentinal tableInts (fun _ => 0)
          fun _ => 0) ⟨⟨0, 0, .int16⟩, true, 1000, 0x469C4000⟩ =
      cells (ramWith 1000 (toBytes 2 30000)) ⟨⟨0, 0, .int16⟩, true, 1000, 0x469C4000⟩ := by
  exact (save_survives_iff (v := ⟨⟨0, 0, .int16⟩, true, 1000, 0x469C4000⟩) (by decide) (by decide)
    ⟨by decide +kernel, by decide +kernel⟩ (mem_cons_self ..) (.inr (.inl rfl))
    (log_eraseAll (by decide) _) nodup_nil (by decide +kernel) _).2
      (.inr (.inr ⟨by decide, by decide, by simp, by decide +kernel⟩))

/-- Both values are saved without an error: 20001 comes back as 20000, and 1 as 0. -/
theorem save_loses_near_default :
    let layout := StorageManager.layoutDefault .four
    let v : Placed := ⟨⟨0, 0, .int16⟩, true, 1000, 0x469C4000⟩
    let w : Placed := ⟨⟨1, 0, .int32⟩, true, 2000, 0x3F7FFFFF⟩
    let saved := save layout emptyStorage sentinal tableInts (fun _ => 0)
    let rebooted := fun writes => reboot layout (applyWrites layout emptyStorage writes) sentinal
      tableInts (fun _ => 0) fun _ => 0
    (saved (ramWith 1000 (toBytes 2 20001)) 1000 false).1 = true ∧
    cells (rebooted (saved (ramWith 1000 (toBytes 2 20001)) 1000 false).2) v = toBytes 2 20000 ∧
    (saved (ramWith 2000 (toBytes 4 1)) 2000 false).1 = true ∧
    cells (rebooted (saved (ramWith 2000 (toBytes 4 1)) 2000 false).2) w = toBytes 4 0 := by
  decide +kernel

end Tm4cPilot.Param
