import Tm4cPilot.Param.TornRecord

/-!
# Power loss during `save`

`save` writes the header of a new record last; but where the record lies in two lines, the header
can reach the EEPROM before the rest.
-/

namespace Tm4cPilot.Param

open List ParamHeader Memory Nat
open StorageManager (Layout view size)
open Px4Storage (Op Interleaved Synced torn stage version nextLine lineSize storageSize)
open Run (run)

/-- The record and the first bytes behind it lie in one line, or the header counts as the sentinal
anyway. -/
def SafeAt (v : VarId) (ofs : ℕ) : Prop :=
  let room := lineSize - ofs % lineSize
  typeSize v.type.code + 6 ≤ room ∨ room = 1 ∨ (room = 2 ∧ v.groupElement % 4 = 3) ∨
    (room = 3 ∧ v.groupElement % 1024 = 255) ∨ v.key.toNat % 512 = 511 ∨ v.groupElement = 255
deriving Decidable

theorem nextLine_sub (ofs : ℕ) : nextLine ofs - ofs = lineSize - ofs % lineSize := by
  simp only [nextLine, lineSize]
  omega

theorem safeAt_iff {v : VarId} (h : v.groupElement < 2 ^ 18) (ofs : ℕ) : SafeAt v ofs ↔
    ofs + typeSize v.type.code + 6 ≤ nextLine ofs ∨
      isSentinal (tornHeader v.header (nextLine ofs - ofs)) = true := by
  have hroom := nextLine_sub ofs
  have hlt : ofs % lineSize < lineSize := mod_lt _ (by decide)
  rw [isSentinal_tornHeader v h (by omega), SafeAt, hroom]
  refine or_congr ?_ Iff.rfl
  omega

theorem add_one_lt_nextLine {v : VarId} {ofs : ℕ} (h : ¬SafeAt v ofs) : ofs + 1 < nextLine ofs := by
  have hroom : lineSize - ofs % lineSize ≠ 1 := fun heq => h (.inr (.inl heq))
  simp only [nextLine, lineSize] at *
  omega

section Torn

variable {m low high : ℕ → UInt8} {ofs : ℕ} {phdr : ParamHeader} {value : List UInt8}

theorem headerAt_torn (hl : Holds low ofs phdr.bytes) (hl' : Holds high ofs sentinal.bytes)
    (hm : ∀ a, ofs ≤ a → a < ofs + 4 → m a = torn ofs low high a) :
    headerAt m ofs = tornHeader phdr (nextLine ofs - ofs) := by
  have h := holds_torn hl hl' (by simp) (by simpa using hm)
  have hlen : (phdr.bytes.take (nextLine ofs - ofs) ++
      sentinal.bytes.drop (nextLine ofs - ofs)).length = 4 := by
    simp only [length_append, length_take, length_drop, length_bytes]
    omega
  rw [Holds, hlen] at h
  rw [headerAt, h, tornHeader]

/-- With the lower line written, the header counts as the sentinal, or the record is all there. -/
theorem sentinal_or_appended {old buffer : ℕ → UInt8} {n j : ℕ} {records : List Record} {v : VarId}
    (hlog : Log buffer n records) (hold : ∀ a < logEnd records + 4, old a = buffer a)
    (hsize : logEnd records + value.length + 8 < 2 ^ 16) (hlen : value.length = typeSize v.type.code)
    (hg : v.groupElement < 2 ^ 18) (hsafe : SafeAt v (logEnd records)) (hj : j ≤ 4)
    (hm : ∀ a < logEnd records + value.length + 8, m a = torn (logEnd records)
    (appended buffer (logEnd records) v.header value)
    (version old buffer (appendWrites (logEnd records) v.header value) j) a) :
    isSentinal (headerAt m (logEnd records)) = true ∨
      ∀ a < logEnd records + value.length + 6,
        m a = appended buffer (logEnd records) v.header value a := by
  rcases (by omega : j ≤ 3 ∨ j = 4) with hj | rfl
  · have hsentinal : Holds (version old buffer (appendWrites (logEnd records) v.header value) j)
        (logEnd records) sentinal.bytes := hlog.stop.congr fun a _ ha =>
      version_appendWrites_of_le hsize hold hj (by rwa [length_bytes] at ha)
    have hheader := headerAt_torn holds_appended_header hsentinal fun a _ ha => hm a (by omega)
    rcases (safeAt_iff hg _).1 hsafe with hline | htorn
    · right
      intro a ha
      rw [hm a (by omega), torn, if_pos (by omega)]
    · exact .inl (hheader ▸ htorn)
  · right
    intro a ha
    rw [hm a (by omega), version, stage_appendWrites hsize, Px4Storage.torn_self]

end Torn

/-! ## Loading what power loss has left -/

section Board

variable {copter : Bool} {buffer eeprom : ℕ → UInt8} {records : List Record} {v : VarId}
  {value : List UInt8}

theorem Log.of_view (h : Log (view (boardLayout copter) .param buffer)
    (size (boardLayout copter) .param) records) :
    Log buffer (size (boardLayout copter) .param) records :=
  h.congr fun _ ha => (view_boardLayout buffer (ha.trans_le h.fits)).symm

theorem loadAll_of_appended {r : Record} (hlog : Log buffer (size (boardLayout copter) .param) records)
    (hroom : logEnd records + r.data.length + 2 * 4 < size (boardLayout copter) .param)
    (hnew : ∀ a < logEnd records + r.data.length + 6,
    view (boardLayout copter) .param (rebooted eeprom) a =
    appended buffer (logEnd records) r.header r.data a) (varInfo : List Info)
    (ptrs : Pointers) (stack : ParamHeader) (ram : ℕ → UInt8) :
    loadAll (boardLayout copter) (rebooted eeprom) varInfo ptrs stack ram =
      (true, load varInfo ptrs (records.foldl (load varInfo ptrs) ram) r) := by
  have happend : Log (appended buffer (logEnd records) r.header r.data)
      (size (boardLayout copter) .param) (records ++ [r]) := hlog.append r hroom.le
  have hend := logEnd_append records r
  have himage : logEnd (records ++ [r]) = 4 + (image (records ++ [r])).length := rfl
  have hbyte := holds_iff.1 happend.stop 1 (by simp)
  have hmiddle : Holds (view (boardLayout copter) .param (rebooted eeprom)) 4
      (image (records ++ [r])) := happend.middle.congr fun a _ ha => hnew a (by omega)
  rw [loadAll_of_holds varInfo ptrs stack ram hmiddle happend.fits (isSentinal_headerAt ?_),
    foldl_append]
  · rfl
  · rw [hnew _ (by omega), hbyte]
    decide

theorem loadAll_torn {old : ℕ → UInt8} (hlog : Log buffer (size (boardLayout copter) .param) records)
    (hold : ∀ a < logEnd records + 4, old a = buffer a)
    (hroom : logEnd records + value.length + 2 * 4 < size (boardLayout copter) .param)
    (hlen : value.length = typeSize v.type.code) (hg : v.groupElement < 2 ^ 18)
    (hsafe : SafeAt v (logEnd records)) {i j : ℕ} (hi : i ≤ 4) (hj : j ≤ i)
    (heeprom : ∀ a < logEnd records + value.length + 8, eeprom a = torn (logEnd records)
    (version old buffer (appendWrites (logEnd records) v.header value) i)
    (version old buffer (appendWrites (logEnd records) v.header value) j) a)
    (varInfo : List Info) (ptrs : Pointers) (stack : ParamHeader) (ram : ℕ → UInt8) :
    loadAll (boardLayout copter) (rebooted eeprom) varInfo ptrs stack ram =
        (true, records.foldl (load varInfo ptrs) ram) ∨
      ∃ r : Record, r.header = v.header ∧ r.data = value ∧
        loadAll (boardLayout copter) (rebooted eeprom) varInfo ptrs stack ram =
          (true, load varInfo ptrs (records.foldl (load varInfo ptrs) ram) r) := by
  have hsize := size_boardLayout_le copter
  have hend : logEnd records = 4 + (image records).length := rfl
  have hm : ∀ a < logEnd records + value.length + 8, view (boardLayout copter) .param
      (rebooted eeprom) a = torn (logEnd records)
        (version old buffer (appendWrites (logEnd records) v.header value) i)
        (version old buffer (appendWrites (logEnd records) v.header value) j) a := by
    intro a ha
    rw [view_rebooted eeprom (by omega), heeprom a ha]
  rcases (by omega : i ≤ 3 ∨ i = 4) with hi | rfl
  · -- The header has not been written.
    refine .inl (Log.loadAll (hlog.congr fun a ha => ?_) varInfo ptrs stack ram)
    rw [hm a (by omega), torn, version_appendWrites_of_le (by omega) hold hi ha,
      version_appendWrites_of_le (by omega) hold (by omega) ha, ite_self]
  · have hwhole : version old buffer (appendWrites (logEnd records) v.header value) 4 =
        appended buffer (logEnd records) v.header value := stage_appendWrites (by omega)
    rw [hwhole] at hm
    have hmiddle : Holds (view (boardLayout copter) .param (rebooted eeprom)) 4 (image records) := by
      refine hlog.middle.congr fun a _ ha => ?_
      rw [hm a (by omega), torn, if_pos (by simp only [nextLine, lineSize]; omega),
        appended_of_lt (by omega)]
    rcases sentinal_or_appended hlog hold (by omega) hlen hg hsafe hj hm with hsentinal | hnew
    · exact .inl (loadAll_of_holds varInfo ptrs stack ram hmiddle hlog.fits hsentinal)
    · by_cases hsentinal : isSentinal v.header = true
      · refine .inl (loadAll_of_holds varInfo ptrs stack ram hmiddle hlog.fits ?_)
        rwa [headerAt_of_holds (holds_appended_header.congr fun a _ ha => hnew a (by
          rw [length_bytes] at ha
          omega))]
      · let r : Record := ⟨v.header, value, by rw [hlen, VarId.header_type],
          Bool.eq_false_iff.2 hsentinal⟩
        exact .inr ⟨r, rfl, rfl, loadAll_of_appended (r := r) hlog hroom hnew varInfo ptrs stack ram⟩

end Board

section Zeros

variable {copter : Bool} {storage : ℕ → UInt8}

variable {ofs : ℕ}

theorem readBlock_boardLayout (h : ofs < size (boardLayout copter) .param) :
    (StorageManager.readBlock (boardLayout copter) .param storage ofs 4).2 =
      readBlock storage ofs (min 4 (size (boardLayout copter) .param - ofs)) := by
  rw [StorageManager.readBlock, blocks_boardLayout (by omega) h]
  simp only [flatMap_cons, flatMap_nil, append_nil]

theorem ofBytes_eq_zero {bytes : List UInt8} (h : ∀ b ∈ bytes, b = 0) : ofBytes bytes = 0 := by
  induction bytes with
  | nil => rfl
  | cons b bytes ih =>
    rw [ofBytes_cons, h b (.head _), ih fun b' hb' => h b' (.tail _ hb')]
    rfl

/-- Only the first byte of the rest is not zero. -/
def Low (phdr : ParamHeader) : Prop := ∃ b : UInt8, phdr = .ofWord b.toNat

variable {phdr : ParamHeader}

theorem Low.isSentinal_eq (h : Low phdr) : isSentinal phdr = false := by
  obtain ⟨b, rfl⟩ := h
  have hb := b.toNat_lt
  rw [← Bool.not_eq_true, isSentinal_ofWord]
  omega

theorem Low.drop_bytes (h : Low phdr) {k : ℕ} (hk : 1 ≤ k) : ∀ b ∈ phdr.bytes.drop k, b = 0 := by
  obtain ⟨b, rfl⟩ := h
  have hb := b.toNat_lt
  have hword : (ofWord b.toNat).word = b.toNat := by
    simp only [word, ofWord, Fin.val_ofNat]
    omega
  have htail : (ofWord b.toNat).bytes.drop 1 = [0, 0, 0] := by
    rw [bytes_eq, hword, div_eq_of_lt hb, div_eq_of_lt (by omega), div_eq_of_lt (by omega)]
    rfl
  intro b' hb'
  rw [← Nat.add_sub_cancel' hk, ← drop_drop, htail] at hb'
  simpa using mem_of_mem_drop hb'

theorem low_readHeader (hofs : ofs < size (boardLayout copter) .param)
    (hzero : ∀ a, ofs < a → a < size (boardLayout copter) .param → storage a = 0)
    (h : ofs + 4 ≤ size (boardLayout copter) .param ∨ Low phdr) :
    Low (readHeader (boardLayout copter) storage phdr ofs) := by
  obtain ⟨k, hk⟩ : ∃ k, min 4 (size (boardLayout copter) .param - ofs) = 1 + k :=
    ⟨min 4 (size (boardLayout copter) .param - ofs) - 1, by omega⟩
  have hrest : ∀ b ∈ readBlock storage (ofs + 1) k ++ phdr.bytes.drop (1 + k), b = 0 := by
    intro b hb
    rcases mem_append.1 hb with hb | hb
    · obtain ⟨i, hi, rfl⟩ := mem_map.1 hb
      rw [mem_range] at hi
      exact hzero _ (by omega) (by omega)
    · rcases h with h | h
      · rw [drop_eq_nil_of_le (by rw [length_bytes]; omega)] at hb
        cases hb
      · exact h.drop_bytes (by omega) b hb
  refine ⟨storage ofs, ?_⟩
  unfold readHeader
  rw [readBlock_boardLayout hofs, hk]
  simp only [length_readBlock]
  rw [readBlock_add, append_assoc]
  rw [show readBlock storage ofs 1 = [storage ofs] from rfl, singleton_append,
    ofBytes_cons, ofBytes_eq_zero hrest, mul_zero, add_zero]

theorem loadAllFrom_zeros (varInfo : List Info) (ptrs : Pointers) {fuel : ℕ}
    (hzero : ∀ a, ofs < a → a < size (boardLayout copter) .param → storage a = 0)
    (h : ofs + 4 ≤ size (boardLayout copter) .param ∨ Low phdr) (ram : ℕ → UInt8) :
    (loadAllFrom (boardLayout copter) storage varInfo ptrs fuel phdr ofs ram).1 = false := by
  induction fuel generalizing ofs phdr ram with
  | zero => rfl
  | succ fuel ih =>
    rw [loadAllFrom]
    split_ifs with hofs
    · have hlow := low_readHeader hofs hzero h
      simp only [hlow.isSentinal_eq, Bool.false_eq_true, if_false]
      exact ih (fun a ha => hzero a (by omega)) (.inr hlow) _
    · rfl

end Zeros

/-! ## Records that are not safe -/

variable {n : ℕ} {records : List Record}

theorem log_iff {m : ℕ → UInt8} : Log m n records ↔
    Holds m 0 (eepromHeader ++ (image records ++ sentinal.bytes)) ∧ logEnd records + 4 ≤ n := by
  rw [holds_append, holds_append]
  exact ⟨fun h => ⟨⟨h.start, h.middle, h.stop⟩, h.fits⟩, fun h => ⟨h.1.1, h.1.2.1, h.1.2.2, h.2⟩⟩

theorem length_log (records : List Record) :
    (eepromHeader ++ (image records ++ sentinal.bytes)).length = logEnd records + 4 := by
  rw [length_append, length_append, length_bytes, logEnd]
  exact (add_assoc ..).symm

theorem Log.apply_eq {m m' : ℕ → UInt8} {n' : ℕ} (h : Log m n records) (h' : Log m' n' records)
    {a : ℕ} (ha : a < logEnd records + 4) : m a = m' a := by
  have hm := holds_iff.1 (log_iff.1 h).1 a (by rwa [length_log])
  have hm' := holds_iff.1 (log_iff.1 h').1 a (by rwa [length_log])
  rw [zero_add] at hm hm'
  exact hm.trans hm'.symm

/-- The log with zeros behind it. -/
def blankBehind (records : List Record) : ℕ → UInt8 :=
  Memory.writeBlock (fun _ => 0) 0 (eepromHeader ++ (image records ++ sentinal.bytes))

theorem blankBehind_of_le {a : ℕ} (h : logEnd records + 4 ≤ a) : blankBehind records a = 0 :=
  writeBlock_apply_out _ (.inr (by rwa [length_log, zero_add]))

theorem log_blankBehind (h : logEnd records + 4 ≤ n) : Log (blankBehind records) n records :=
  log_iff.2 ⟨holds_writeBlock .., h⟩

section Board

variable {copter : Bool} {buffer eeprom : ℕ → UInt8} {records : List Record} {v : VarId}
  {value : List UInt8}

/-- Over zeros, with the lower line of an unsafe record, `load_all` does not reach a sentinal. -/
theorem loadAll_unsafe (hlog : Log buffer (size (boardLayout copter) .param) records)
    (hzero : ∀ a, logEnd records + 4 ≤ a → a < size (boardLayout copter) .param → buffer a = 0)
    (hroom : logEnd records + value.length + 2 * 4 < size (boardLayout copter) .param)
    (hlen : value.length = typeSize v.type.code) (hg : v.groupElement < 2 ^ 18)
    (hsafe : ¬SafeAt v (logEnd records)) (heeprom : ∀ a < storageSize, eeprom a =
    torn (logEnd records) (appended buffer (logEnd records) v.header value) buffer a)
    (varInfo : List Info) (ptrs : Pointers) (stack : ParamHeader) (ram : ℕ → UInt8) :
    (loadAll (boardLayout copter) (rebooted eeprom) varInfo ptrs stack ram).1 = false := by
  have hsize := size_boardLayout_le copter
  have hend : logEnd records = 4 + (image records).length := rfl
  have hm : ∀ a < size (boardLayout copter) .param, view (boardLayout copter) .param
      (rebooted eeprom) a =
        torn (logEnd records) (appended buffer (logEnd records) v.header value) buffer a := by
    intro a ha
    rw [view_rebooted eeprom ha, heeprom a (by simp only [storageSize]; omega)]
  have hmiddle : Holds (view (boardLayout copter) .param (rebooted eeprom)) 4 (image records) := by
    refine hlog.middle.congr fun a _ ha => ?_
    rw [hm a (by omega), torn, appended_of_lt (by omega), ite_self]
  have hheader := headerAt_torn holds_appended_header hlog.stop fun a _ ha => hm a (by omega)
  have hnext := add_one_lt_nextLine hsafe
  rw [safeAt_iff hg, not_or, Bool.not_eq_true, ← hheader] at hsafe
  obtain ⟨hline, hsentinal⟩ := hsafe
  have htype : ((headerAt (view (boardLayout copter) .param (rebooted eeprom)) (logEnd records)).type :
      ℕ) = v.type.code := by
    rw [headerAt_type, hm _ (by omega), torn, if_pos hnext, ← headerAt_type,
      headerAt_of_holds holds_appended_header, VarId.header_type]
  obtain ⟨fuel, hfuel⟩ := exists_fuel (show logEnd records < size (boardLayout copter) .param by omega)
  obtain ⟨phdr', hskip⟩ := loadAllFrom_skip varInfo ptrs hmiddle (by omega) (fuel + 1) stack ram
  rw [loadAll, hfuel, hskip, ← hend, loadAllFrom, if_pos (by omega), readHeader_eq _ _ (by omega)]
  simp only [hsentinal, Bool.false_eq_true, if_false, htype, ← hlen]
  refine loadAllFrom_zeros varInfo ptrs (fun a ha ha' => ?_) (.inl (by omega)) _
  rw [← view_boardLayout (rebooted eeprom) ha', hm a ha', torn, if_neg (by omega)]
  exact hzero a (by omega) ha'

end Board

/-! ## Atomicity -/

section Atomic

variable (copter : Bool) (varInfo : List Info) (ptrs : Pointers) (records : List Record)

/-- The buffer and the EEPROM hold a log with these records. -/
structure Stored (s : Px4Storage.State) : Prop where
  initialised : s.initialised = true
  tracked : Px4Storage.Tracked s
  buffer : Log (view (boardLayout copter) .param s.buffer) (size (boardLayout copter) .param) records
  eeprom : Log (view (boardLayout copter) .param s.eeprom) (size (boardLayout copter) .param) records

/-- After a reboot `load_all` loads the old values, or those with the new one. -/
def Atomic (stack : ParamHeader) (ram buffer eeprom : ℕ → UInt8) (start : ℕ) (value : List UInt8) :
    Prop :=
  let before := (loadAll (boardLayout copter) buffer varInfo ptrs stack ram).2
  let after := loadAll (boardLayout copter) (rebooted eeprom) varInfo ptrs stack ram
  after.1 = true ∧ (after.2 = before ∨ after.2 = Memory.writeBlock before start value)

/-- The value is to be stored, and there is room for it. -/
def Appends (found : Found) (value : List UInt8) (forceSave : Bool) : Prop :=
  (forceSave = true ∨ isDefault found.type value found.defValue = false) ∧
    logEnd records + typeSize found.type.code + 2 * 4 < size (boardLayout copter) .param

/-- The record is loaded as the variable, or changes nothing. -/
def Lands (found : Found) (ram ram₀ : ℕ → UInt8) (this : ℕ) : Prop :=
  let before := records.foldl (load varInfo ptrs) ram₀
  ∀ r : Record, r.header = found.id.header → r.data = found.value ram this →
    load varInfo ptrs before r = before ∨
      load varInfo ptrs before r =
        Memory.writeBlock before (found.start this) (found.value ram this)

variable {copter varInfo ptrs records} {storage ram ram₀ : ℕ → UInt8} {this : ℕ} {found : Found}
  {forceSave : Bool} {s : Px4Storage.State}

theorem save_halWrites (ram : ℕ → UInt8) (forceSave : Bool)
    (hcheck : checkVarInfo varInfo = true) (hfind : findVarInfo ptrs this varInfo = some found)
    (hnew : ∀ r ∈ records, r.header ≠ found.id.header)
    (hlog : Log (view (boardLayout copter) .param storage) (size (boardLayout copter) .param) records)
    (stack : ParamHeader) :
    (Appends copter records found (found.value ram this) forceSave →
      (save (boardLayout copter) storage stack varInfo ptrs ram this forceSave).2.flatMap
        (halWrites (boardLayout copter)) =
          appendWrites (logEnd records) found.id.header (found.value ram this)) ∧
    (¬Appends copter records found (found.value ram this) forceSave →
      (save (boardLayout copter) storage stack varInfo ptrs ram this forceSave).2 = []) := by
  obtain ⟨-, hidx⟩ := mem_vars_of_findVarInfo hcheck hfind
  have hstore : ¬(!forceSave && isDefault found.type (found.value ram this) found.defValue) = true ↔
      forceSave = true ∨ isDefault found.type (found.value ram this) found.defValue = false := by
    rw [Bool.and_eq_true, Bool.not_eq_true', not_and_or, Bool.not_eq_false, Bool.not_eq_true]
  rw [save_of_notMem stack ram forceSave hfind hidx hlog hnew]
  constructor
  · rintro ⟨hvalue, hroom⟩
    rw [if_neg (hstore.2 hvalue), if_neg (by omega), ← found.length_value ram this,
      flatMap_halWrites]
    · rw [Found.length_value]
      exact typeSize_le _
    · rwa [Found.length_value]
  · intro hnot
    split_ifs with hdefault hroom
    · rfl
    · rfl
    · exact absurd ⟨hstore.1 hdefault, by omega⟩ hnot

theorem Stored.eeprom_ticks (h : Stored copter records s) {ops : List Op} (hops : Interleaved [] ops) :
    Log (run Px4Storage.step s ops).eeprom (size (boardLayout copter) .param) records := by
  have hsize := size_boardLayout_le copter
  have hfits := h.buffer.fits
  have heq : ∀ a < logEnd records + 4, s.eeprom a = s.buffer a := fun a ha =>
    h.eeprom.of_view.apply_eq h.buffer.of_view ha
  have hwithin : ∀ op ∈ ([] : List Op),
      Px4Storage.Within (logEnd records + 4) (logEnd records + 4) op := by simp
  obtain ⟨i, hi, j, hj, heeprom⟩ := Px4Storage.eeprom_torn hwithin h.initialised h.tracked heq
    (by omega) (by simp only [storageSize]; omega) hops
  have hversion : ∀ i, ∀ a < logEnd records + 4, version s.eeprom s.buffer [] i a = s.buffer a := by
    intro i a ha
    cases i with
    | zero => exact heq a ha
    | succ i =>
      rw [version, stage, take_nil]
      rfl
  refine h.buffer.of_view.congr fun a ha => ?_
  rw [heeprom a ha, torn, hversion i a ha, hversion j a ha, ite_self]

/-- The storage opened on such a log. -/
def opened (records : List Record) : Px4Storage.State :=
  Px4Storage.storageOpen (Px4Storage.fresh (blankBehind records))

theorem synced_opened (records : List Record) : Synced (opened records) :=
  Px4Storage.synced_storageOpen_fresh _

theorem stored_opened (h : logEnd records + 4 ≤ size (boardLayout copter) .param) :
    Stored copter records (opened records) where
  initialised := (synced_opened records).initialised
  tracked := (synced_opened records).tracked
  buffer := (log_blankBehind h).congr fun a ha => view_rebooted _ (by omega)
  eeprom := (log_blankBehind h).congr fun a ha => view_boardLayout _ (by omega)

theorem opened_buffer {a : ℕ} (h : a < storageSize) : (opened records).buffer a = blankBehind records a :=
  Px4Storage.storageOpen_buffer_of_not rfl h

theorem loadAll_tick {v : VarId} {value : List UInt8}
    (hroom : logEnd records + value.length + 2 * 4 < size (boardLayout copter) .param)
    (hlen : value.length = typeSize v.type.code) (hg : v.groupElement < 2 ^ 18)
    (hsafe : ¬SafeAt v (logEnd records)) (varInfo : List Info) (ptrs : Pointers) (stack : ParamHeader)
    (ram : ℕ → UInt8) :
    (loadAll (boardLayout copter) (rebooted (run Px4Storage.step (opened records)
      (appendWrites (logEnd records) v.header value ++ [.tick true])).eeprom) varInfo ptrs stack
        ram).1 = false := by
  have hsize := size_boardLayout_le copter
  have hnext := add_one_lt_nextLine hsafe
  have hlog : Log (opened records).buffer (size (boardLayout copter) .param) records :=
    (stored_opened (by omega)).buffer.of_view
  have hwhole : stage (opened records).buffer (appendWrites (logEnd records) v.header value) 3 =
      appended (opened records).buffer (logEnd records) v.header value := stage_appendWrites (by omega)
  refine loadAll_unsafe hlog (fun a ha ha' => ?_) hroom hlen hg hsafe (fun a ha => ?_) varInfo ptrs
    stack ram
  · rw [opened_buffer (by simp only [storageSize]; omega), blankBehind_of_le ha]
  · -- The second byte of the header has changed: it has the type.
    have hchanged : stage (opened records).buffer (appendWrites (logEnd records) v.header value) 3
        (logEnd records + 1) ≠ (opened records).buffer (logEnd records + 1) := by
      rw [hwhole]
      intro heq
      have htype := headerAt_type (appended (opened records).buffer (logEnd records) v.header value)
        (logEnd records)
      rw [heq, ← headerAt_type, headerAt_of_holds holds_appended_header, headerAt_of_holds hlog.stop,
        VarId.header_type] at htype
      have hcode := v.type.code_lt
      rw [htype] at hcode
      exact absurd hcode (by decide)
    rw [← hwhole]
    refine Px4Storage.eeprom_writes_tick (synced_opened records) (within_appendWrites (by omega))
      (by simp only [storageSize]; omega) (by simp only [storageSize]; omega) ?_ hchanged ha
    simp only [nextLine, lineSize] at *
    omega

theorem exists_loadAll_ticks {r : Record}
    (hroom : logEnd records + r.data.length + 2 * 4 < size (boardLayout copter) .param) :
    ∃ n, ∀ varInfo ptrs stack ram, loadAll (boardLayout copter)
      (rebooted (run Px4Storage.step (opened records)
        (appendWrites (logEnd records) r.header r.data ++ replicate n (.tick true))).eeprom)
          varInfo ptrs stack ram =
            (true, load varInfo ptrs (records.foldl (load varInfo ptrs) ram) r) := by
  have hsize := size_boardLayout_le copter
  have hle := typeSize_le r.header.type
  have hlen := r.length_data
  have hlog : Log (opened records).buffer (size (boardLayout copter) .param) records :=
    (stored_opened (by omega)).buffer.of_view
  have hwithin : ∀ op ∈ appendWrites (logEnd records) r.header r.data,
      Px4Storage.Within (logEnd records) (logEnd records + r.data.length + 8) op :=
    within_appendWrites (by omega)
  obtain ⟨n, hn⟩ := Px4Storage.exists_eeprom_writes_ticks (synced_opened records) hwithin
    (by simp only [lineSize]; omega) (by simp only [storageSize]; omega)
  refine ⟨n, fun varInfo ptrs stack ram =>
    loadAll_of_appended hlog hroom (fun a ha => ?_) varInfo ptrs stack ram⟩
  rw [view_rebooted _ (by omega), hn a (by simp only [storageSize]; omega)]
  exact congrFun (stage_appendWrites (by omega)) a

theorem Stored.atomic (hs : Stored copter records s) (hcheck : checkVarInfo varInfo = true)
    (hfind : findVarInfo ptrs this varInfo = some found)
    (hnew : ∀ r ∈ records, r.header ≠ found.id.header) (stack : ParamHeader)
    (h : Appends copter records found (found.value ram this) forceSave →
      SafeAt found.id (logEnd records) ∧ Lands varInfo ptrs records found ram ram₀ this)
    {ops : List Op} (hops : Interleaved
      ((save (boardLayout copter) s.buffer stack varInfo ptrs ram this forceSave).2.flatMap
        (halWrites (boardLayout copter))) ops) (stack' : ParamHeader) :
    Atomic copter varInfo ptrs stack' ram₀ s.buffer (run Px4Storage.step s ops).eeprom
      (found.start this) (found.value ram this) := by
  have hsize := size_boardLayout_le copter
  have hfits := hs.buffer.fits
  have hsave := save_halWrites ram forceSave hcheck hfind hnew hs.buffer stack
  rw [Atomic, hs.buffer.loadAll]
  by_cases happends : Appends copter records found (found.value ram this) forceSave
  · obtain ⟨hsafe, hlands⟩ := h happends
    have hlen := found.length_value ram this
    have hle := typeSize_le found.type.code
    have hroom : logEnd records + (found.value ram this).length + 2 * 4 <
        size (boardLayout copter) .param := by
      rw [hlen]
      exact happends.2
    have hg := groupElement_lt hcheck (mem_vars_of_findVarInfo hcheck hfind).1
    have heq : ∀ a < logEnd records + 4, s.eeprom a = s.buffer a := fun a ha =>
      hs.eeprom.of_view.apply_eq hs.buffer.of_view ha
    rw [hsave.1 happends] at hops
    obtain ⟨i, hi, j, hj, heeprom⟩ := Px4Storage.eeprom_torn
      (within_appendWrites (by omega)) hs.initialised hs.tracked (fun a ha => heq a (by omega))
      (by simp only [lineSize]; omega) (by simp only [storageSize]; omega) hops
    rcases loadAll_torn hs.buffer.of_view heq hroom hlen hg hsafe hi hj heeprom varInfo ptrs stack'
      ram₀ with hload | ⟨r, hheader, hdata, hload⟩
    · rw [hload]
      exact ⟨rfl, .inl rfl⟩
    · rw [hload]
      exact ⟨rfl, hlands r hheader hdata⟩
  · rw [hsave.2 happends, flatMap_nil] at hops
    have hlog := hs.eeprom_ticks hops
    have hview : Log (view (boardLayout copter) .param (rebooted (run Px4Storage.step s ops).eeprom))
        (size (boardLayout copter) .param) records :=
      hlog.congr fun a ha => view_rebooted _ (by omega)
    rw [hview.loadAll]
    exact ⟨rfl, .inl rfl⟩

end Atomic

/-- Power loss during a save does no harm exactly if a record that is added is safe where it lies
and lands. -/
theorem save_atomic_iff {copter : Bool} {varInfo : List Info} {ptrs : Pointers}
    {records : List Record} {ram ram₀ : ℕ → UInt8} {this : ℕ} {found : Found} {forceSave : Bool}
    (hcheck : checkVarInfo varInfo = true) (hfind : findVarInfo ptrs this varInfo = some found)
    (hnew : ∀ r ∈ records, r.header ≠ found.id.header) (stack stack' : ParamHeader) :
    (∀ s, Stored copter records s → ∀ ops, Interleaved
      ((save (boardLayout copter) s.buffer stack varInfo ptrs ram this forceSave).2.flatMap
        (halWrites (boardLayout copter))) ops →
      Atomic copter varInfo ptrs stack' ram₀ s.buffer (run Px4Storage.step s ops).eeprom
        (found.start this) (found.value ram this)) ↔
    (Appends copter records found (found.value ram this) forceSave →
      SafeAt found.id (logEnd records) ∧ Lands varInfo ptrs records found ram ram₀ this) := by
  refine ⟨fun h happends => ?_, fun h s hs ops hops =>
    hs.atomic hcheck hfind hnew stack h hops stack'⟩
  have hsize := size_boardLayout_le copter
  have hlen := found.length_value ram this
  have hroom := happends.2
  rw [← hlen] at hroom
  have hg := groupElement_lt hcheck (mem_vars_of_findVarInfo hcheck hfind).1
  have hstored : Stored copter records (opened records) := stored_opened (by omega)
  have hwithin : ∀ op ∈ appendWrites (logEnd records) found.id.header (found.value ram this),
      Px4Storage.Within (logEnd records) (logEnd records + (found.value ram this).length + 8) op :=
    within_appendWrites (by omega)
  have hatomic := h _ hstored
  rw [(save_halWrites ram forceSave hcheck hfind hnew hstored.buffer stack).1 happends] at hatomic
  constructor
  · by_contra hsafe
    obtain ⟨htrue, -⟩ := hatomic _ (Px4Storage.interleaved_append hwithin
      (Px4Storage.interleaved_ticks 1))
    have hfalse := loadAll_tick hroom hlen hg hsafe varInfo ptrs stack' ram₀
    exact absurd (htrue.symm.trans hfalse) (by decide)
  · intro r hheader hdata
    rw [← hheader, ← hdata] at hatomic hwithin
    rw [← hdata] at hroom ⊢
    obtain ⟨n, hload⟩ := exists_loadAll_ticks hroom
    obtain ⟨-, hram⟩ := hatomic _ (Px4Storage.interleaved_append hwithin
      (Px4Storage.interleaved_ticks n))
    rwa [hload, hstored.buffer.loadAll] at hram

def tableVectors : List Info :=
  (range 32).map fun i => ⟨['V'], UInt16.ofNat i, 1000 + 12 * i, .var .vector3f 0, 0⟩

/-- What `find_var_info` finds for a vector. -/
def foundVector (i : ℕ) : Found :=
  ⟨⟨['V'], UInt16.ofNat i, 1000 + 12 * i, .var .vector3f 0, 0⟩, none, [], 0, .vector3f, 0, 0⟩

/-- The new value of a vector. -/
def newVector (i : ℕ) : List UInt8 := (foundVector i).value (fun _ => 7) (1000 + 12 * i)

/-- The writes of the save of a vector at `ofs`, and a tick. -/
def saveAndTick (i ofs : ℕ) : List Op :=
  appendWrites ofs (foundVector i).id.header (newVector i) ++ [.tick true]

/-- The log with the first vector. -/
def firstVector : List Record := [⟨(foundVector 0).id.header, replicate 12 5, rfl, by decide⟩]

/-- The second vector is safe, with power lost before its header and after the write-back. -/
theorem save_atomic_second :
    let after (ops : List Op) := Atomic false tableVectors (fun _ => 0) sentinal (fun _ => 0)
      (opened firstVector).buffer (run Px4Storage.step (opened firstVector) ops).eeprom
      ((foundVector 1).start 1012) ((foundVector 1).value (fun _ => 7) 1012)
    after ((saveAndTick 1 20).take 2 ++ [.tick true]) ∧ after (saveAndTick 1 20) := by
  have hfind : findVarInfo (fun _ => 0) 1012 tableVectors = some (foundVector 1) := rfl
  have hnew : ∀ r ∈ firstVector, r.header ≠ (foundVector 1).id.header := by decide
  have happends : Appends false firstVector (foundVector 1)
      ((foundVector 1).value (fun _ => 7) 1012) false := ⟨.inr rfl, by decide⟩
  have hstored : Stored false firstVector (opened firstVector) := stored_opened (by decide)
  have hsave := save_halWrites (fun _ => 7) false (by decide) hfind hnew hstored.buffer sentinal
  have hlands : Lands tableVectors (fun _ => 0) firstVector (foundVector 1) (fun _ => 7)
      (fun _ => 0) 1012 := by
    intro r hheader hdata
    right
    unfold load
    rw [hheader, hdata]
    rfl
  have hatomic := (save_atomic_iff (by decide) hfind hnew sentinal sentinal).2
    (fun _ : Appends false firstVector (foundVector 1) _ false => ⟨by decide, hlands⟩) _ hstored
  rw [hsave.1 happends] at hatomic
  exact ⟨hatomic _ (.write _ _ (.write _ _ (.tick true (.stop _)))),
    hatomic _ (Px4Storage.interleaved_append (within_appendWrites (by decide))
      (Px4Storage.interleaved_ticks 1))⟩

theorem length_vectorZero : (replicate 12 0 : List UInt8).length = 12 := rfl

/-- The records of the first 31 vectors. -/
def vectorRecords : List Record :=
  (finRange 31).map fun i : Fin 31 =>
    ⟨(foundVector i).id.header, replicate 12 0, length_vectorZero, by
      revert i
      decide⟩

/-- The header and 8 bytes of the value reach the EEPROM, and `load_all` no sentinal. -/
theorem save_torn_last :
    checkVarInfo tableVectors = true ∧ Stored false vectorRecords (opened vectorRecords) ∧
    Interleaved ((save (boardLayout false) (opened vectorRecords).buffer sentinal tableVectors
      (fun _ => 0) (fun _ => 7) 1372 false).2.flatMap (halWrites (boardLayout false)))
        (saveAndTick 31 500) ∧
    (loadAll (boardLayout false) (rebooted (run Px4Storage.step (opened vectorRecords)
      (saveAndTick 31 500)).eeprom) tableVectors (fun _ => 0) sentinal fun _ => 0).1 = false := by
  have hend : logEnd vectorRecords = 500 := by decide +kernel
  have hfind : findVarInfo (fun _ => 0) 1372 tableVectors = some (foundVector 31) := rfl
  have hnew : ∀ r ∈ vectorRecords, r.header ≠ (foundVector 31).id.header := by decide +kernel
  have happends : Appends false vectorRecords (foundVector 31) (newVector 31) false :=
    ⟨.inr rfl, by rw [hend]; decide⟩
  have hstored : Stored false vectorRecords (opened vectorRecords) :=
    stored_opened (by rw [hend]; decide)
  have hsave := save_halWrites (fun _ => 7) false (by decide) hfind hnew hstored.buffer sentinal
  refine ⟨by decide, hstored, ?_, ?_⟩
  · rw [hsave.1 happends, hend]
    exact Px4Storage.interleaved_append (within_appendWrites (by decide))
      (Px4Storage.interleaved_ticks 1)
  · rw [saveAndTick, ← hend]
    exact loadAll_tick (by rw [hend]; decide) (Found.length_value ..) (by decide)
      (by rw [hend]; decide) _ _ _ _

end Tm4cPilot.Param
