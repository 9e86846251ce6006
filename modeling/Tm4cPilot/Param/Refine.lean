import Tm4cPilot.Lib.Run
import Tm4cPilot.Param.Save

/-!
# The log as a finite map

A run of `erase_all` and forced `save` calls is followed by a finite map from variables to the bytes
saved last. The log refines it as long as headers identify the variables.
-/

namespace Tm4cPilot.Param

open VarId List Function
open StorageManager (Layout view size)
open Memory (Holds holds_append)
open Run (run Along)

/-- The data under a header. -/
def lookup (records : List Record) (header : ParamHeader) : Option (List UInt8) :=
  (records.find? fun r => r.header = header).map Record.data

theorem lookup_eq_none {records : List Record} {header : ParamHeader} :
    lookup records header = none ↔ ∀ r ∈ records, r.header ≠ header := by
  simp [lookup]

theorem lookup_split {pre post : List Record} {r : Record} (header : ParamHeader)
    (hpre : ∀ r' ∈ pre, r'.header ≠ r.header) :
    lookup (pre ++ r :: post) header =
      if header = r.header then some r.data else lookup (pre ++ post) header := by
  unfold lookup
  rw [find?_append, find?_append, find?_cons]
  by_cases h : header = r.header
  · have hnone : pre.find? (fun r' => r'.header = header) = none := by
      rw [find?_eq_none]
      intro r' hr'
      simpa [h] using hpre r' hr'
    rw [hnone, if_pos h, decide_eq_true h.symm]
    rfl
  · rw [if_neg h, decide_eq_false (Ne.symm h)]

theorem exists_split_of_lookup {records : List Record} {header : ParamHeader} {bytes : List UInt8}
    (h : lookup records header = some bytes) :
    ∃ pre r post, records = pre ++ r :: post ∧ r.header = header ∧ r.data = bytes ∧
      ∀ r' ∈ pre, r'.header ≠ r.header := by
  have hex : ∃ r ∈ records, r.header = header := by
    by_contra hnone
    push Not at hnone
    rw [lookup_eq_none.2 hnone] at h
    cases h
  obtain ⟨pre, r, post, rfl, hr, hpre⟩ := exists_split hex
  rw [← hr] at hpre h
  rw [lookup_split _ hpre, if_pos rfl] at h
  exact ⟨pre, r, post, rfl, hr, Option.some_inj.1 h, hpre⟩

theorem Log.readBlock_data {layout : Layout} {storage : ℕ → UInt8} {pre post : List Record}
    {r : Record} (h : Log (view layout .param storage) (size layout .param) (pre ++ r :: post)) :
    StorageManager.readBlock layout .param storage (logEnd pre + 4) (typeSize r.header.type) =
      (true, r.data) := by
  obtain ⟨-, hmiddle, -, hfits⟩ := h
  rw [logEnd, image_append, length_append, image_cons, length_append,
    r.length_bytes] at hfits
  rw [image_append, image_cons, holds_append, holds_append, Record.bytes, holds_append,
    ParamHeader.length_bytes] at hmiddle
  have hlt := typeSize_le r.header.type
  unfold logEnd
  rw [StorageManager.readBlock_eq_view (by omega) (by omega), ← r.length_data]
  exact congrArg _ hmiddle.2.1.2

/-- A call, with the contents of RAM. Saves are forced. -/
inductive Call where
  | eraseAll
  | save (ptrs : Pointers) (ram : ℕ → UInt8) (this : ℕ)

/-- The storage, and the bytes last saved. -/
structure State where
  storage : ℕ → UInt8
  values : VarId → Option (List UInt8)

section Runs

variable (layout : Layout) (stack : ParamHeader) (varInfo : List Info)

/-- A call, on the storage and on the map. -/
def step (s : State) : Call → State
  | .eraseAll => ⟨applyWrites layout s.storage eraseAll, fun _ => none⟩
  | .save ptrs ram this =>
    let done := save layout s.storage stack varInfo ptrs ram this true
    { storage := applyWrites layout s.storage done.2
      values := match findVarInfo ptrs this varInfo with
        | some found =>
          if done.1 then update s.values found.id (some (found.value ram this))
          else s.values
        | none => s.values }

/-- An erased store. -/
def erased (storage : ℕ → UInt8) : State := ⟨applyWrites layout storage eraseAll, fun _ => none⟩

/-- Its header is no sentinal, and no other variable has it. -/
def Identified (v : VarId) : Prop :=
  v.key.toNat % 512 ≠ 511 ∧ v.groupElement ≠ 255 ∧
    ∀ w ∈ vars varInfo, w.key.toNat % 512 = v.key.toNat % 512 → w.groupElement = v.groupElement →
      w.type = v.type → w = v

/-- What is saved is identified. -/
def Sound (_ : State) : Call → Prop
  | .eraseAll => True
  | .save ptrs _ this => ∀ found, findVarInfo ptrs this varInfo = some found →
      Identified varInfo found.id

/-- `scan` finds exactly the saved variables. -/
structure Refines (s : State) : Prop where
  wellFormed : ∃ records, Log (view layout .param s.storage) (size layout .param) records ∧
    (records.map Record.header).Nodup
  found : ∀ v ∈ vars varInfo, ∀ bytes, s.values v = some bytes → ∃ ofs,
    scan layout s.storage stack v.header = (true, ofs) ∧
      StorageManager.readBlock layout .param s.storage (ofs + 4) (typeSize v.type.code) =
        (true, bytes)
  notFound : ∀ v ∈ vars varInfo, s.values v = none →
    (scan layout s.storage stack v.header).1 = false

end Runs

/-! ## The invariant -/

section Invariant

variable {layout : Layout} {stack : ParamHeader} {varInfo : List Info} {s : State}

/-- The log has the records of the map. -/
structure Holding (layout : Layout) (varInfo : List Info) (s : State) (records : List Record) :
    Prop where
  log : Log (view layout .param s.storage) (size layout .param) records
  nodup : (records.map Record.header).Nodup
  values : ∀ v ∈ vars varInfo, lookup records v.header = s.values v

variable {records : List Record}

theorem Holding.refines (h : Holding layout varInfo s records)
    (stack : ParamHeader) : Refines layout stack varInfo s := by
  refine ⟨⟨records, h.log, h.nodup⟩, fun v hv bytes hbytes => ?_, fun v hv hnone => ?_⟩
  · rw [← h.values v hv] at hbytes
    obtain ⟨pre, r, post, rfl, hr, rfl, hpre⟩ := exists_split_of_lookup hbytes
    refine ⟨logEnd pre, hr ▸ h.log.scan_mem hpre stack, ?_⟩
    rw [← h.log.readBlock_data, hr, header_type]
  · rw [← h.values v hv, lookup_eq_none] at hnone
    rw [h.log.scan_notMem hnone v.header_ne_sentinal]

theorem Identified.eq_of_header {v w : VarId} (h : Identified varInfo v)
    (hcheck : checkVarInfo varInfo = true) (hv : v ∈ vars varInfo) (hw : w ∈ vars varInfo)
    (heq : w.header = v.header) : w = v := by
  have hkey := congrArg ParamHeader.getKey heq
  have hgroup := congrArg (fun phdr => (phdr.groupElement : ℕ)) heq
  have htype := congrArg (fun phdr => (phdr.type : ℕ)) heq
  simp only [header_getKey, header_groupElement, header_type] at hkey hgroup htype
  rw [Nat.mod_eq_of_lt (groupElement_lt hcheck hv),
    Nat.mod_eq_of_lt (groupElement_lt hcheck hw)] at hgroup
  exact h.2.2 w hw hkey hgroup (VarType.code_injective htype)

theorem Holding.update {records' : List Record} (h : Holding layout varInfo s records)
    (hcheck : checkVarInfo varInfo = true) {v : VarId} (hv : v ∈ vars varInfo)
    (hid : Identified varInfo v) {storage : ℕ → UInt8}
    (hlog : Log (view layout .param storage) (size layout .param) records')
    (hnodup : (records'.map Record.header).Nodup) {bytes : List UInt8}
    (hlookup : ∀ header, lookup records' header =
    if header = v.header then some bytes else lookup records header) :
    Holding layout varInfo ⟨storage, update s.values v (some bytes)⟩ records' := by
  refine ⟨hlog, hnodup, fun w hw => ?_⟩
  show lookup records' w.header = Function.update s.values v (some bytes) w
  rw [hlookup]
  by_cases heq : w = v
  · rw [heq, if_pos rfl, update_self]
  · rw [if_neg (fun hheader => heq (hid.eq_of_header hcheck hv hw hheader)),
      update_of_ne heq, h.values w hw]

theorem Holding.save (h : Holding layout varInfo s records)
    (hcheck : checkVarInfo varInfo = true) {ptrs : Pointers} {ram : ℕ → UInt8} {this : ℕ}
    (hsound : Sound varInfo s (.save ptrs ram this)) :
    ∃ records', Holding layout varInfo (step layout stack varInfo s (.save ptrs ram this))
      records' := by
  -- A save that fails changes neither side.
  have hfail : (Param.save layout s.storage stack varInfo ptrs ram this true).1 = false →
      ∃ records', Holding layout varInfo (step layout stack varInfo s (.save ptrs ram this))
        records' := by
    intro hfalse
    refine ⟨records, ?_⟩
    simp only [step, save_false hfalse, hfalse, Bool.false_eq_true, if_false]
    cases findVarInfo ptrs this varInfo <;> exact h
  cases hfind : findVarInfo ptrs this varInfo with
  | none => exact hfail (by simp [Param.save, hfind])
  | some found =>
    obtain ⟨hv, hidx⟩ := mem_vars_of_findVarInfo hcheck hfind
    have hid := hsound found hfind
    by_cases hstored : ∃ r ∈ records, r.header = found.id.header
    · obtain ⟨pre, r, post, rfl, hr, hpre⟩ := exists_split hstored
      rw [← hr] at hpre
      let r' : Record := ⟨r.header, found.value ram this, by
        rw [Found.length_value, hr, header_type]
        rfl, r.not_sentinal⟩
      refine ⟨pre ++ r' :: post, ?_⟩
      simp only [step, hfind, save_of_mem hfind hidx h.log hr hpre, if_true]
      refine h.update hcheck hv hid (log_replace h.log r' rfl) ?_ fun header => ?_
      · simpa using h.nodup
      · rw [lookup_split header hpre, lookup_split (r := r') header hpre, ← hr]
        split_ifs <;> rfl
    · push Not at hstored
      have hsave := save_of_notMem stack ram true hfind hidx h.log hstored
      simp only [Bool.not_true, Bool.false_and, Bool.false_eq_true, if_false] at hsave
      by_cases hroom : logEnd records + typeSize found.type.code + 2 * 4 ≥ size layout .param
      · rw [if_pos hroom] at hsave
        exact hfail (by rw [hsave])
      · rw [if_neg hroom] at hsave
        let r : Record := ⟨found.id.header, found.value ram this, by
          rw [Found.length_value, header_type]
          rfl, by
          rw [← Bool.not_eq_true, isSentinal_header _ (groupElement_lt hcheck hv)]
          exact fun halias => halias.elim hid.1 hid.2.1⟩
        have hlen : r.data.length = typeSize found.type.code := found.length_value ram this
        have hlog := log_append h.log r (by omega)
        rw [hlen] at hlog
        refine ⟨records ++ [r], ?_⟩
        simp only [step, hfind, hsave, if_true]
        refine h.update hcheck hv hid hlog ?_ fun header => ?_
        · rw [map_append, nodup_append']
          refine ⟨h.nodup, nodup_singleton _, ?_⟩
          intro header hmem hheader
          obtain ⟨r', hr', rfl⟩ := mem_map.1 hmem
          exact hstored r' hr' (mem_singleton.1 hheader)
        · rw [lookup_split (r := r) header hstored, append_nil]

theorem Holding.step (h : Holding layout varInfo s records)
    (hsize : 8 ≤ size layout .param) (hcheck : checkVarInfo varInfo = true) {c : Call}
    (hsound : Sound varInfo s c) :
    ∃ records', Holding layout varInfo (Param.step layout stack varInfo s c) records' := by
  cases c with
  | eraseAll => exact ⟨[], log_eraseAll hsize s.storage, nodup_nil, fun _ _ => rfl⟩
  | save ptrs ram this => exact h.save hcheck hsound

end Invariant

/-- In every run that saves identified variables, the log refines the map. -/
theorem log_refines_values {layout : Layout} (hsize : 8 ≤ size layout .param)
    (stack : ParamHeader) {varInfo : List Info} (hcheck : checkVarInfo varInfo = true)
    (storage : ℕ → UInt8) {calls : List Call}
    (h : Along (step layout stack varInfo) (Sound varInfo) (erased layout storage) calls) :
    Refines layout stack varInfo (run (step layout stack varInfo) (erased layout storage) calls) := by
  have hrun : ∃ records, Holding layout varInfo
      (run (step layout stack varInfo) (erased layout storage) calls) records := by
    refine Along.invariant (I := fun s => ∃ records, Holding layout varInfo s records) ?_ h ?_
    · intro s c hsound ⟨records, hs⟩
      exact hs.step hsize hcheck hsound
    · exact ⟨[], log_eraseAll hsize storage, nodup_nil, fun _ _ => rfl⟩
  obtain ⟨records, hrecords⟩ := hrun
  exact hrecords.refines stack

theorem sound_of_id {varInfo : List Info} {ptrs : Pointers} {ram : ℕ → UInt8} {this : ℕ} {v : VarId}
    (h : (findVarInfo ptrs this varInfo).map Found.id = some v) (hv : Identified varInfo v)
    (s : State) : Sound varInfo s (.save ptrs ram this) := by
  intro found hfound
  rw [hfound, Option.map_some, Option.some_inj] at h
  rwa [h]

theorem log_refines_values_saved :
    Refines (StorageManager.layoutDefault .four) sentinal exampleTable
      (run (step (StorageManager.layoutDefault .four) sentinal exampleTable)
        (erased (StorageManager.layoutDefault .four) fun _ => 0)
        [.save (fun _ => 0) (fun _ => 7) 1000, .save (fun _ => 0) (fun _ => 8) 2016]) := by
  refine log_refines_values (by decide) sentinal (by decide) (fun _ => 0) ⟨?_, ?_, trivial⟩
  · exact sound_of_id (v := ⟨0, 0, .int16⟩) rfl (by unfold Identified; decide) _
  · exact sound_of_id (v := ⟨1, 129, .vector3f⟩) rfl (by unfold Identified; decide) _

/-- A variable with the group element of the sentinal. -/
def tableAliased : List Info :=
  [⟨['F'], 0, 1000, .var .int16 0, 0⟩, ⟨['M', '_'], 1, 2000, .group
    (.group ⟨63, ['B', '_'], 0, flagNestedOffset⟩ (.var ⟨3, ['P'], 0, 0⟩ .int8 0 .groupEnd)
      .groupEnd), 0⟩]

/-- Two keys with the same 9 bits. -/
def tableTruncated : List Info :=
  [⟨['F'], 1, 1000, .var .int8 0, 0⟩, ⟨['G'], 513, 2000, .var .int8 0, 0⟩]

/-- A save overwrites a variable that counts as the sentinal. -/
theorem log_loses_value :
    (checkVarInfo tableAliased = true ∧ (vars tableAliased).Nodup ∧
      let s := run (step (StorageManager.layoutDefault .four) sentinal tableAliased)
        (erased (StorageManager.layoutDefault .four) fun _ => 0)
        [.save (fun _ => 0) (fun _ => 7) 2000, .save (fun _ => 0) (fun _ => 9) 1000]
      s.values ⟨1, 255, .int8⟩ = some [7] ∧
      (scan (StorageManager.layoutDefault .four) s.storage sentinal
        (VarId.header ⟨1, 255, .int8⟩)).1 = false) ∧
    (checkVarInfo tableTruncated = true ∧ (vars tableTruncated).Nodup ∧
      let s := run (step (StorageManager.layoutDefault .four) sentinal tableTruncated)
        (erased (StorageManager.layoutDefault .four) fun _ => 0)
        [.save (fun _ => 0) (fun _ => 7) 1000]
      s.values ⟨513, 0, .int8⟩ = none ∧
      (scan (StorageManager.layoutDefault .four) s.storage sentinal
        (VarId.header ⟨513, 0, .int8⟩)).1 = true) := by
  decide +kernel

end Tm4cPilot.Param
