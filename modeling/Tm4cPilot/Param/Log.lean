import Tm4cPilot.Param.Store

/-!
# Well-formed logs

The records lie one after the other behind the `EEPROM_header`, and the sentinal behind the last of
them.
-/

namespace Tm4cPilot.Param

open List StorageManager Memory Nat

/-! ## Headers -/

theorem toBytes_succ (n : ℕ) (z : ℤ) :
    toBytes (n + 1) z = UInt8.ofNat (z % 2 ^ 8).toNat :: toBytes n (z / 2 ^ 8) := by
  unfold toBytes
  rw [range_succ_eq_map, map_cons, map_map]
  congr 1
  · simp
  · refine map_congr_left fun i _ => ?_
    rw [Function.comp_apply, succ_eq_add_one, Int.ediv_ediv_of_nonneg (by norm_num), ← pow_add,
      mul_add, mul_one, add_comm]

@[simp] theorem length_toBytes (n : ℕ) (z : ℤ) : (toBytes n z).length = n := by
  simp [toBytes]

theorem toBytes_natCast (n w : ℕ) :
    toBytes n w = (List.range n).map fun i => UInt8.ofNat (w / 2 ^ (8 * i) % 2 ^ 8) := by
  refine map_congr_left fun i _ => ?_
  have hcast : (w : ℤ) / 2 ^ (8 * i) % 2 ^ 8 = ((w / 2 ^ (8 * i) % 2 ^ 8 : ℕ) : ℤ) := by
    rfl
  rw [hcast, Int.toNat_natCast]

@[simp] theorem ofBytes_nil : ofBytes [] = 0 := rfl

theorem ofBytes_cons (b : UInt8) (bytes : List UInt8) :
    ofBytes (b :: bytes) = b.toNat + 2 ^ 8 * ofBytes bytes := rfl

theorem ofBytes_lt (bytes : List UInt8) : ofBytes bytes < 2 ^ (8 * bytes.length) := by
  induction bytes with
  | nil => exact one_pos
  | cons b bytes ih =>
    have := b.toNat_lt
    rw [ofBytes_cons, length_cons, mul_add, mul_one, pow_add]
    omega

theorem ofBytes_toBytes (n w : ℕ) (h : w < 2 ^ (8 * n)) : ofBytes (toBytes n w) = w := by
  induction n generalizing w with
  | zero =>
    have : w = 0 := by simpa using h
    simp [this, toBytes, ofBytes]
  | succ n ih =>
    have hbyte : (UInt8.ofNat ((w : ℤ) % 2 ^ 8).toNat).toNat = w % 2 ^ 8 := by
      rw [UInt8.toNat_ofNat']
      omega
    have hdiv : ((w : ℤ) / 2 ^ 8) = ((w / 2 ^ 8 : ℕ) : ℤ) := by push_cast; rfl
    rw [toBytes_succ, ofBytes_cons, hbyte, hdiv, ih _ ?_, mod_add_div]
    rw [mul_add, mul_one, pow_add] at h
    exact Nat.div_lt_of_lt_mul (by rwa [mul_comm] at h)

theorem ParamHeader.word_lt (phdr : ParamHeader) : phdr.word < 2 ^ 32 := by
  unfold word
  omega

theorem ParamHeader.ofWord_word (phdr : ParamHeader) : ofWord phdr.word = phdr := by
  obtain ⟨a, b, c, d⟩ := phdr
  simp only [ofWord, word, ParamHeader.mk.injEq, Fin.ext_iff, Fin.val_ofNat] at *
  omega

theorem ParamHeader.ofWord_bytes (phdr : ParamHeader) : ofWord (ofBytes phdr.bytes) = phdr := by
  rw [bytes, ofBytes_toBytes 4 _ phdr.word_lt, ofWord_word]

@[simp] theorem ParamHeader.length_bytes (phdr : ParamHeader) : phdr.bytes.length = 4 := by
  simp [bytes]

theorem ParamHeader.matches_iff (phdr target : ParamHeader) :
    (phdr.type = target.type ∧ phdr.getKey = target.getKey ∧
      phdr.groupElement = target.groupElement) ↔ phdr = target := by
  constructor
  · intro ⟨htype, hkey, hgroup⟩
    obtain ⟨a, b, c, d⟩ := phdr
    obtain ⟨a', b', c', d'⟩ := target
    simp only [getKey] at hkey
    simp only [ParamHeader.mk.injEq, Fin.ext_iff]
    exact ⟨by omega, congrArg Fin.val htype, by omega, congrArg Fin.val hgroup⟩
  · intro h
    rw [h]
    exact ⟨rfl, rfl, rfl⟩

/-- A header and the data of its type. -/
structure Record where
  header : ParamHeader
  data : List UInt8
  length_data : data.length = typeSize header.type
  not_sentinal : isSentinal header = false

/-- The record in storage. -/
def Record.bytes (r : Record) : List UInt8 := r.header.bytes ++ r.data

theorem Record.length_bytes (r : Record) : r.bytes.length = typeSize r.header.type + 4 := by
  rw [bytes, length_append, ParamHeader.length_bytes, r.length_data, add_comm]

/-- The records in storage. -/
def image (records : List Record) : List UInt8 := records.flatMap Record.bytes

@[simp] theorem image_cons (r : Record) (records : List Record) :
    image (r :: records) = r.bytes ++ image records := rfl

@[simp] theorem image_append (records records' : List Record) :
    image (records ++ records') = image records ++ image records' :=
  flatMap_append ..

theorem length_le_image (records : List Record) : records.length ≤ (image records).length := by
  induction records with
  | nil => rfl
  | cons r records ih =>
    rw [image_cons, length_append, length_cons, r.length_bytes]
    omega

/-- Where the sentinal lies. -/
def logEnd (records : List Record) : ℕ := 4 + (image records).length

theorem logEnd_append (records : List Record) (r : Record) :
    logEnd (records ++ [r]) = logEnd records + 4 + r.data.length := by
  rw [logEnd, image_append, length_append, image_cons, length_append, r.length_bytes,
    r.length_data, logEnd]
  simp only [image, flatMap_nil, length_nil]
  omega

theorem exists_fuel {records : List Record} {n : ℕ} (h : logEnd records < n) :
    ∃ fuel, n = records.length + (fuel + 1) := by
  have hlen := length_le_image records
  unfold logEnd at h
  exact ⟨n - records.length - 1, by omega⟩

/-- The memory of an area of `size` bytes is a log. -/
structure Log (m : ℕ → UInt8) (size : ℕ) (records : List Record) : Prop where
  start : Holds m 0 eepromHeader
  middle : Holds m 4 (image records)
  stop : Holds m (logEnd records) sentinal.bytes
  fits : logEnd records + 4 ≤ size

/-! ## Walking over records -/

section Walk

variable {layout : Layout} {storage : ℕ → UInt8}

/-- The header at an offset. -/
def headerAt (m : ℕ → UInt8) (ofs : ℕ) : ParamHeader := .ofWord (ofBytes (Memory.readBlock m ofs 4))

variable {ofs : ℕ}

theorem headerAt_of_holds {m : ℕ → UInt8} {phdr : ParamHeader} (h : Holds m ofs phdr.bytes) :
    headerAt m ofs = phdr := by
  unfold Holds at h
  rw [ParamHeader.length_bytes] at h
  rw [headerAt, h, ParamHeader.ofWord_bytes]

theorem readHeader_eq (storage : ℕ → UInt8) (phdr : ParamHeader)
    (h : ofs + 4 ≤ size layout .param) :
    readHeader layout storage phdr ofs = headerAt (view layout .param storage) ofs := by
  unfold readHeader headerAt
  rw [readBlock_eq_view (by omega) h]
  simp only [length_readBlock]
  rw [drop_eq_nil_of_le (by simp), append_nil]

variable {records : List Record}

theorem scanFrom_skip {target : ParamHeader}
    (h : Holds (view layout .param storage) ofs (image records))
    (hsize : ofs + (image records).length ≤ size layout .param)
    (hne : ∀ r ∈ records, r.header ≠ target) (fuel : ℕ) (phdr : ParamHeader) :
    ∃ phdr', scanFrom layout storage target (records.length + fuel) phdr ofs =
      scanFrom layout storage target fuel phdr' (ofs + (image records).length) := by
  induction records generalizing ofs phdr with
  | nil => exact ⟨phdr, by simp [image]⟩
  | cons r records ih =>
    obtain ⟨hhead, hrest⟩ := holds_append.1 h
    obtain ⟨hheader, -⟩ := holds_append.1 hhead
    rw [image_cons, length_append, r.length_bytes] at hsize
    have hread := readHeader_eq storage phdr (show ofs + 4 ≤ size layout .param by omega)
    rw [headerAt_of_holds hheader] at hread
    rw [r.length_bytes] at hrest
    obtain ⟨phdr', hphdr'⟩ := ih hrest (by omega) (fun r' hr' => hne r' (.tail _ hr')) r.header
    refine ⟨phdr', ?_⟩
    rw [length_cons, add_right_comm, scanFrom, if_pos (by omega), hread,
      if_neg (fun heq => hne r (.head _) ((ParamHeader.matches_iff _ _).1 heq)), r.not_sentinal,
      if_neg (by simp), hphdr', image_cons, length_append, r.length_bytes, add_assoc]

/-- `load_all` reads a record into its variable. -/
def load (varInfo : List Info) (ptrs : Pointers) (ram : ℕ → UInt8) (r : Record) : ℕ → UInt8 :=
  match findByHeader ptrs r.header varInfo with
  | some ptr => Memory.writeBlock ram ptr r.data
  | none => ram

theorem loadAllFrom_skip (varInfo : List Info) (ptrs : Pointers)
    (h : Holds (view layout .param storage) ofs (image records))
    (hsize : ofs + (image records).length ≤ size layout .param) (fuel : ℕ) (phdr : ParamHeader)
    (ram : ℕ → UInt8) :
    ∃ phdr', loadAllFrom layout storage varInfo ptrs (records.length + fuel) phdr ofs ram =
      loadAllFrom layout storage varInfo ptrs fuel phdr' (ofs + (image records).length)
        (records.foldl (load varInfo ptrs) ram) := by
  induction records generalizing ofs phdr ram with
  | nil => exact ⟨phdr, by simp [image]⟩
  | cons r records ih =>
    obtain ⟨hhead, hrest⟩ := holds_append.1 h
    obtain ⟨hheader, hdata⟩ := holds_append.1 hhead
    rw [image_cons, length_append, r.length_bytes] at hsize
    have hread := readHeader_eq storage phdr (show ofs + 4 ≤ size layout .param by omega)
    rw [headerAt_of_holds hheader] at hread
    have hvalue : (readBlock layout .param storage (ofs + 4)
        (typeSize r.header.type)).2 = r.data := by
      have hlt : typeSize r.header.type < 256 := by
        unfold typeSize
        split <;> omega
      rw [readBlock_eq_view hlt (by omega), ← r.length_data]
      rwa [ParamHeader.length_bytes] at hdata
    rw [r.length_bytes] at hrest
    obtain ⟨phdr', hphdr'⟩ := ih hrest (by omega) r.header (load varInfo ptrs ram r)
    refine ⟨phdr', ?_⟩
    rw [length_cons, add_right_comm, loadAllFrom, if_pos (by omega), hread]
    simp only [r.not_sentinal, Bool.false_eq_true, if_false, hvalue]
    rw [image_cons, length_append, r.length_bytes, ← add_assoc ofs (_ + 4), foldl_cons]
    exact hphdr'

theorem loadAll_of_holds (varInfo : List Info) (ptrs : Pointers) (stack : ParamHeader)
    (ram : ℕ → UInt8) (h : Holds (view layout .param storage) 4 (image records))
    (hsize : logEnd records + 4 ≤ size layout .param)
    (hend : isSentinal (headerAt (view layout .param storage) (logEnd records)) = true) :
    loadAll layout storage varInfo ptrs stack ram =
      (true, records.foldl (load varInfo ptrs) ram) := by
  obtain ⟨fuel, hfuel⟩ := exists_fuel (show logEnd records < size layout .param by omega)
  unfold logEnd at hsize hend
  obtain ⟨phdr', hskip⟩ := loadAllFrom_skip varInfo ptrs h (by omega) (fuel + 1) stack ram
  rw [loadAll, hfuel, hskip, loadAllFrom, if_pos (by omega), readHeader_eq _ _ hsize]
  simp only [hend, if_true]

end Walk

section Logs

variable {layout : Layout} {storage : ℕ → UInt8} {records : List Record}

theorem Log.loadAll (h : Log (view layout .param storage) (size layout .param) records)
    (varInfo : List Info) (ptrs : Pointers) (stack : ParamHeader) (ram : ℕ → UInt8) :
    loadAll layout storage varInfo ptrs stack ram =
      (true, records.foldl (load varInfo ptrs) ram) := by
  refine loadAll_of_holds varInfo ptrs stack ram h.middle h.fits ?_
  rw [headerAt_of_holds h.stop]
  rfl

theorem Log.scan_mem {pre post : List Record} {r : Record}
    (h : Log (view layout .param storage) (size layout .param) (pre ++ r :: post))
    (hpre : ∀ r' ∈ pre, r'.header ≠ r.header) (stack : ParamHeader) :
    scan layout storage stack r.header = (true, logEnd pre) := by
  obtain ⟨-, hmiddle, -, hfits⟩ := h
  rw [logEnd, image_append, length_append, image_cons, length_append, r.length_bytes] at hfits
  rw [image_append, image_cons, holds_append, holds_append] at hmiddle
  obtain ⟨hpre', hhead, -⟩ := hmiddle
  obtain ⟨fuel, hfuel⟩ := exists_fuel (show logEnd pre < size layout .param by
    unfold logEnd
    omega)
  obtain ⟨phdr', hskip⟩ := scanFrom_skip hpre' (by omega) hpre (fuel + 1) stack
  rw [scan, hfuel, hskip, scanFrom, if_pos (by omega), readHeader_eq _ _ (by omega),
    headerAt_of_holds (holds_append.1 hhead).1, if_pos ⟨rfl, rfl, rfl⟩, logEnd]

theorem Log.scan_notMem (h : Log (view layout .param storage) (size layout .param) records)
    {target : ParamHeader} (hne : ∀ r ∈ records, r.header ≠ target) (ht : target ≠ sentinal)
    (stack : ParamHeader) : scan layout storage stack target = (false, logEnd records) := by
  obtain ⟨-, hmiddle, hstop, hfits⟩ := h
  obtain ⟨fuel, hfuel⟩ := exists_fuel (show logEnd records < size layout .param by omega)
  have hend := headerAt_of_holds hstop
  unfold logEnd at *
  obtain ⟨phdr', hskip⟩ := scanFrom_skip hmiddle (by omega) hne (fuel + 1) stack
  rw [scan, hfuel, hskip, scanFrom, if_pos (by omega), readHeader_eq _ _ hfits, hend,
    if_neg (fun heq => ht ((ParamHeader.matches_iff _ _).1 heq).symm),
    if_pos (show isSentinal sentinal = true from rfl)]

theorem exists_split {header : ParamHeader} (h : ∃ r ∈ records, r.header = header) :
    ∃ pre r post, records = pre ++ r :: post ∧ r.header = header ∧
      ∀ r' ∈ pre, r'.header ≠ header := by
  induction records with
  | nil => simp at h
  | cons r records ih =>
    by_cases hr : r.header = header
    · exact ⟨[], r, records, rfl, hr, by simp⟩
    · obtain ⟨pre, r', post, rfl, hr', hpre⟩ := ih (by simpa [hr] using h)
      refine ⟨r :: pre, r', post, rfl, hr', fun r'' hmem => ?_⟩
      rcases mem_cons.1 hmem with rfl | hmem
      · exact hr
      · exact hpre r'' hmem

end Logs

/-! ## Writing -/

/-- The write stays in the area. -/
def Write.Inside (n : ℕ) (w : Write) : Prop := w.data.length < 256 ∧ w.ofs + w.data.length ≤ n

theorem view_applyWrites {layout : Layout} {storage : ℕ → UInt8} {writes : List Write}
    (h : ∀ w ∈ writes, w.Inside (size layout .param)) {a : ℕ} (ha : a < size layout .param) :
    view layout .param (applyWrites layout storage writes) a =
      (writes.foldl (fun m w => Memory.writeBlock m w.ofs w.data) (view layout .param storage)) a := by
  have hfold : ∀ (storage : ℕ → UInt8) (m : ℕ → UInt8),
      (∀ a < size layout .param, view layout .param storage a = m a) → ∀ a < size layout .param,
        view layout .param (applyWrites layout storage writes) a =
          (writes.foldl (fun m w => Memory.writeBlock m w.ofs w.data) m) a := by
    induction writes with
    | nil => exact fun _ _ hm => hm
    | cons w writes ih =>
      intro storage m hm
      obtain ⟨hw, hwrites⟩ := forall_mem_cons.1 h
      refine ih hwrites (writeBlock layout .param storage w.ofs w.data).2 _ ?_
      intro a ha
      rw [view_writeBlock hw.1 hw.2 ha]
      unfold Memory.writeBlock updateBlock
      rw [hm a ha]
  exact hfold storage _ (fun _ _ => rfl) a ha

section Logs

variable {m m' : ℕ → UInt8} {n : ℕ} {records : List Record}

theorem Log.congr (h : Log m n records) (heq : ∀ a < logEnd records + 4, m' a = m a) :
    Log m' n records := by
  have hend : logEnd records = 4 + (image records).length := rfl
  refine ⟨h.start.congr fun a _ ha => heq a ?_, h.middle.congr fun a _ ha => heq a (by omega),
    h.stop.congr fun a _ ha => heq a ?_, h.fits⟩
  · simp only [eepromHeader, length_cons, length_nil] at ha
    omega
  · rwa [ParamHeader.length_bytes] at ha

theorem Log.update {pre post : List Record} {r r' : Record} (h : Log m n (pre ++ r :: post))
    (hr : r'.header = r.header) :
    Log (Memory.writeBlock m (logEnd pre + 4) r'.data) n (pre ++ r' :: post) := by
  have hlen : r'.data.length = r.data.length := by rw [r.length_data, r'.length_data, hr]
  have hbytes : r'.bytes.length = r.bytes.length := by rw [r.length_bytes, r'.length_bytes, hr]
  have hend : logEnd (pre ++ r' :: post) = logEnd (pre ++ r :: post) := by
    simp only [logEnd, image_append, image_cons, length_append, hbytes]
  have hstop := r.length_bytes
  rw [← r.length_data] at hstop
  obtain ⟨h₁, h₂, h₃, h₄⟩ := h
  have hlog : logEnd (pre ++ r :: post) =
      4 + (image pre).length + (r.data.length + 4) + (image post).length := by
    simp only [logEnd, image_append, image_cons, length_append, hstop]
    omega
  simp only [image_append, image_cons, holds_append, Record.bytes] at h₂
  obtain ⟨hpre, ⟨hhead, hdata⟩, hpost⟩ := h₂
  simp only [length_append, ParamHeader.length_bytes] at hpost
  refine ⟨h₁.writeBlock (.inl ?_), ?_, ?_, by rwa [hend]⟩
  · simp only [eepromHeader, length_cons, length_nil, logEnd]
    omega
  · simp only [image_append, image_cons, holds_append, Record.bytes, hr, length_append,
      ParamHeader.length_bytes, hlen]
    refine ⟨hpre.writeBlock (.inl ?_), ⟨hhead.writeBlock (.inl ?_), ?_⟩, hpost.writeBlock (.inr ?_)⟩
    · simp only [logEnd]
      omega
    · simp only [logEnd, ParamHeader.length_bytes]
      omega
    · exact holds_writeBlock ..
    · simp only [logEnd]
      omega
  · rw [hend]
    refine h₃.writeBlock (.inr ?_)
    rw [hlog, hlen, logEnd]
    omega

theorem Log.append (h : Log m n records) (r : Record)
    (hroom : logEnd records + r.data.length + 2 * 4 ≤ n) :
    Log (Memory.writeBlock (Memory.writeBlock (Memory.writeBlock m
      (logEnd records + 4 + r.data.length) sentinal.bytes) (logEnd records + 4) r.data)
        (logEnd records) r.header.bytes) n (records ++ [r]) := by
  have hend := logEnd_append records r
  have hlog : logEnd records = 4 + (image records).length := rfl
  refine ⟨?_, ?_, ?_, by omega⟩
  · refine ((h.start.writeBlock (.inl ?_)).writeBlock (.inl ?_)).writeBlock (.inl ?_)
    all_goals simp only [eepromHeader, length_cons, length_nil]; omega
  · rw [image_append, holds_append]
    refine ⟨((h.middle.writeBlock (.inl ?_)).writeBlock (.inl ?_)).writeBlock (.inl ?_), ?_⟩
    · omega
    · omega
    · omega
    · rw [← hlog, image_cons, Record.bytes]
      simp only [image, flatMap_nil, append_nil, holds_append, ParamHeader.length_bytes]
      refine ⟨holds_writeBlock .., (holds_writeBlock ..).writeBlock (.inr ?_)⟩
      rw [ParamHeader.length_bytes]
  · rw [hend]
    refine ((holds_writeBlock ..).writeBlock (.inr ?_)).writeBlock (.inr ?_)
    · omega
    · rw [ParamHeader.length_bytes]
      omega

end Logs

end Tm4cPilot.Param
