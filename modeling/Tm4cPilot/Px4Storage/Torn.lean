import Tm4cPilot.Px4Storage.WriteBack

/-!
# Writes that power loss tears apart

Ticks between the writes to a range of at most two lines write the lower line first: the EEPROM has
the lower line after some of the writes, and the upper line after no more of them.
-/

namespace Tm4cPilot.Px4Storage

open List Run Nat

/-- The first of the writes, with ticks in between. -/
inductive Interleaved : List Op → List Op → Prop
  | stop (writes : List Op) : Interleaved writes []
  | tick {writes ops : List Op} (ok : Bool) (h : Interleaved writes ops) :
      Interleaved writes (.tick ok :: ops)
  | write {writes ops : List Op} (loc : UInt16) (src : List UInt8) (h : Interleaved writes ops) :
      Interleaved (.write loc src :: writes) (.write loc src :: ops)

/-- The storage is open and every line has been written back. -/
structure Synced (s : State) : Prop where
  initialised : s.initialised = true
  tracked : Tracked s
  clean : dirtySet s = ∅

/-- The start of the next line. -/
def nextLine (a : ℕ) : ℕ := (a / lineSize + 1) * lineSize

/-- `low` up to the end of the line of `a`, and then `high`. -/
def torn (a : ℕ) (low high : ℕ → UInt8) : ℕ → UInt8 := fun b =>
  if b < nextLine a then low b else high b

@[simp] theorem torn_self (a : ℕ) (m : ℕ → UInt8) : torn a m m = m := by
  funext b
  exact ite_self _

/-- The bytes after the first `k` of the writes. -/
def stage (m : ℕ → UInt8) (writes : List Op) (k : ℕ) : ℕ → UInt8 := contents m (writes.take k)

/-- The bytes after some of the writes. -/
def version (old m : ℕ → UInt8) (writes : List Op) : ℕ → ℕ → UInt8
  | 0 => old
  | k + 1 => stage m writes k

/-- Writes are in the range. -/
def Within (lo bound : ℕ) : Op → Prop
  | .write loc src => lo ≤ loc.toNat ∧ loc.toNat + src.length ≤ bound
  | _ => False

section Torn

variable {m : ℕ → UInt8} {writes : List Op} {lo bound : ℕ}

variable {a : ℕ}

theorem apply_out {op : Op} (h : Within lo bound op) (ha : a < lo ∨ bound ≤ a) :
    op.apply m a = m a := by
  cases op with
  | write loc src =>
    obtain ⟨h₁, h₂⟩ := h
    exact Memory.writeBlock_apply_out _ (by omega)
  | read _ _ => cases h
  | tick _ => cases h

theorem stage_out (h : ∀ op ∈ writes, Within lo bound op) (k : ℕ) (ha : a < lo ∨ bound ≤ a) :
    stage m writes k a = m a := by
  unfold stage contents
  have hk : ∀ op ∈ writes.take k, Within lo bound op := fun op hop => h op (mem_of_mem_take hop)
  generalize writes.take k = ops at hk
  induction ops generalizing m with
  | nil => rfl
  | cons op ops ih =>
    rw [run_cons, ih fun op' hop' => hk op' (.tail _ hop'), apply_out (hk op (.head _)) ha]

theorem stage_succ {k : ℕ} {op : Op} {rest : List Op} (h : writes.drop k = op :: rest) :
    stage m writes (k + 1) = op.apply (stage m writes k) := by
  have hop : writes[k]? = some op := by
    rw [← head?_drop, h, head?_cons]
  rw [stage, take_add_one, hop, Option.toList_some, contents, run, foldl_append]
  rfl

/-! ## Steps -/

/-- The state after `k` of the writes and some ticks. -/
structure TornAt (old m : ℕ → UInt8) (writes : List Op) (lo k : ℕ) (s : State) : Prop where
  initialised : s.initialised = true
  tracked : Tracked s
  buffer : ∀ a < storageSize, s.buffer a = stage m writes k a
  lines : ∃ i ≤ k + 1, ∃ j ≤ i, ∀ a < storageSize,
    a / lineSize = lo / lineSize ∨ a / lineSize = lo / lineSize + 1 →
      s.eeprom a = torn lo (version old m writes i) (version old m writes j) a
  others : ∀ a < storageSize, ¬(a / lineSize = lo / lineSize ∨ a / lineSize = lo / lineSize + 1) →
    s.eeprom a = old a ∨ s.eeprom a = m a

theorem writeBlock_of_initialised {s : State} (hi : s.initialised = true) {loc : UInt16}
    {src : List UInt8} (hr : loc.toNat + src.length < storageSize) :
    (writeBlock s loc src).initialised = true ∧ (writeBlock s loc src).eeprom = s.eeprom ∧
      (∀ a, (writeBlock s loc src).buffer a = Memory.writeBlock s.buffer loc.toNat src a) ∧
      ∀ line ∈ dirtySet (writeBlock s loc src), line ∈ dirtySet s ∨
        (loc.toNat / lineSize ≤ line ∧ line ≤ (loc.toNat + src.length) / lineSize) := by
  have hopen : storageOpen s = s := by rw [storageOpen, if_pos hi]
  rw [writeBlock, outOfRange_ofNat hr.le, if_neg (by simp)]
  split_ifs with hsame
  · refine ⟨hi, rfl, fun a => ?_, fun line hline => .inl hline⟩
    rw [hsame, Memory.writeBlock_readBlock_apply, ite_self]
  · have hmod : src.length % 2 ^ 16 = src.length := by
      simp only [storageSize] at hr
      exact mod_eq_of_lt (by omega)
    simp only [hopen, hmod]
    refine ⟨hi, rfl, fun _ => rfl, fun line hline => ?_⟩
    rw [mem_dirtySet, markDirty, get_foldl_set, Bool.or_eq_true, decide_eq_true_eq,
      mem_dirtyLines hr] at hline
    exact hline.2.elim .inr fun hget => .inl (mem_dirtySet.2 ⟨hline.1, hget⟩)

variable {old : ℕ → UInt8} {k : ℕ} {s : State}

theorem TornAt.write (h : TornAt old m writes lo k s) (hw : ∀ op ∈ writes, Within lo bound op)
    (hsize : bound < storageSize) {loc : UInt16} {src : List UInt8} {rest : List Op}
    (hop : writes.drop k = .write loc src :: rest) :
    TornAt old m writes lo (k + 1) (writeBlock s loc src) := by
  obtain ⟨hlo, hend⟩ : Within lo bound (.write loc src) :=
    hw _ (mem_of_mem_drop (hop ▸ mem_cons_self))
  have hlt : loc.toNat + src.length < storageSize := by omega
  obtain ⟨hinit, heeprom, hbuffer, -⟩ := writeBlock_of_initialised h.initialised hlt
  obtain ⟨i, hi, j, hj, hmix⟩ := h.lines
  refine ⟨hinit, ?_, fun a ha => ?_, ⟨i, by omega, j, hj, ?_⟩, ?_⟩
  · exact tracked_writeBlock h.tracked ⟨hlt.le, fun heq => absurd heq hlt.ne⟩
  · rw [hbuffer, stage_succ hop]
    show _ = Memory.writeBlock (stage m writes k) loc.toNat src a
    unfold Memory.writeBlock Memory.updateBlock
    rw [h.buffer a ha]
  · rw [heeprom]
    exact hmix
  · rw [heeprom]
    exact h.others

theorem torn_of_lower {low high : ℕ → UInt8} (h : a / lineSize = lo / lineSize) :
    torn lo low high a = low a := by
  refine if_pos ?_
  simp only [nextLine, lineSize] at *
  omega

theorem torn_of_upper {low high : ℕ → UInt8} (h : a / lineSize = lo / lineSize + 1) :
    torn lo low high a = high a := by
  refine if_neg ?_
  simp only [nextLine, lineSize] at *
  omega

theorem TornAt.tick (h : TornAt old m writes lo k s) (hw : ∀ op ∈ writes, Within lo bound op)
    (hbound : bound ≤ lo + lineSize) (ok : Bool) : TornAt old m writes lo k (timerTick s ok) := by
  obtain ⟨heq, -⟩ | ⟨line, hline, hfirst, heq⟩ := h.tracked.timerTick_cases ok
  · rw [heq]
    exact h
  · have htracked := tracked_mtdWrite h.tracked hline ok
    have hlt := (mem_dirtySet.1 hline).1
    rw [heq]
    cases ok with
    | false =>
      rw [mtdWrite_false] at htracked ⊢
      exact ⟨h.initialised, htracked, h.buffer, h.lines, h.others⟩
    | true =>
      rw [mtdWrite_true hlt] at htracked ⊢
      have hwritten : ∀ a, Memory.writeBlock s.eeprom (line * lineSize)
          (Memory.readBlock s.buffer (line * lineSize) lineSize) a =
            if a / lineSize = line then s.buffer a else s.eeprom a := by
        intro a
        rw [Memory.writeBlock_readBlock_apply]
        refine if_congr ?_ rfl rfl
        simp only [lineSize]
        omega
      obtain ⟨i, hi, j, hj, hmix⟩ := h.lines
      refine ⟨h.initialised, htracked, h.buffer, ?_, fun a ha hout => ?_⟩
      · simp only [hwritten]
        by_cases hlower : line = lo / lineSize
        · refine ⟨k + 1, le_rfl, j, by omega, fun a ha hin => ?_⟩
          rcases hin with hin | hin
          · rw [torn_of_lower hin, if_pos (by omega)]
            exact h.buffer a ha
          · rw [torn_of_upper hin, if_neg (by omega), hmix a ha (.inr hin), torn_of_upper hin]
        · by_cases hupper : line = lo / lineSize + 1
          · refine ⟨k + 1, le_rfl, k + 1, le_rfl, fun a ha hin => ?_⟩
            rw [torn_self]
            show _ = stage m writes k a
            split_ifs with hal
            · exact h.buffer a ha
            · -- The lower line is clean, so the EEPROM has its bytes already.
              by_contra hne
              rw [← h.buffer a ha] at hne
              have hdirty := h.tracked.dirty h.initialised a ha (Ne.symm hne)
              rw [hfirst _ (by omega)] at hdirty
              cases hdirty
          · refine ⟨i, hi, j, hj, fun a ha hin => ?_⟩
            rw [if_neg (by omega)]
            exact hmix a ha hin
      · simp only [hwritten]
        split_ifs with hal
        · refine .inr ((h.buffer a ha).trans (stage_out hw k ?_))
          simp only [lineSize] at *
          omega
        · exact h.others a ha hout

/-! ## Runs -/

theorem tornAt_start (hinit : s.initialised = true) (htracked : Tracked s) (writes : List Op)
    (lo : ℕ) : TornAt s.eeprom s.buffer writes lo 0 s where
  initialised := hinit
  tracked := htracked
  buffer _ _ := rfl
  lines := ⟨0, zero_le _, 0, le_rfl, fun a _ _ => by rw [torn_self, version]⟩
  others _ _ _ := .inl rfl

variable {ops : List Op}

section

variable (hw : ∀ op ∈ writes, Within lo bound op)
include hw

theorem TornAt.interleaved (h : TornAt old m writes lo k s) (hbound : bound ≤ lo + lineSize)
    (hsize : bound < storageSize) (hk : k ≤ writes.length)
    (hops : Interleaved (writes.drop k) ops) :
    ∃ k' ≤ writes.length, TornAt old m writes lo k' (run step s ops) := by
  generalize hrest : writes.drop k = rest at hops
  induction hops generalizing k s with
  | stop _ =>
    exact ⟨k, hk, h⟩
  | tick ok _ ih =>
    exact ih (h.tick hw hbound ok) hk hrest
  | write loc src _ ih =>
    have hlt : k < writes.length := by
      by_contra hge
      rw [drop_eq_nil_of_le (by omega)] at hrest
      cases hrest
    rw [run_cons]
    refine ih (h.write hw hsize hrest) (by omega) ?_
    rw [← tail_drop, hrest, tail_cons]

/-- When power is lost, the EEPROM has the lower line in version `i` and the upper line in version
`j ≤ i`. -/
theorem eeprom_torn (hinit : s.initialised = true) (htracked : Tracked s)
    (hold : ∀ a < lo, s.eeprom a = s.buffer a) (hbound : bound ≤ lo + lineSize)
    (hsize : bound < storageSize) (hops : Interleaved writes ops) :
    ∃ i ≤ writes.length + 1, ∃ j ≤ i, ∀ a < bound, (run step s ops).eeprom a =
      torn lo (version s.eeprom s.buffer writes i) (version s.eeprom s.buffer writes j) a := by
  obtain ⟨k, hk, hrun⟩ :=
    (tornAt_start hinit htracked writes lo).interleaved hw hbound hsize (zero_le _) hops
  obtain ⟨i, hi, j, hj, hlines⟩ := hrun.lines
  refine ⟨i, by omega, j, hj, fun a ha => ?_⟩
  by_cases hin : a / lineSize = lo / lineSize ∨ a / lineSize = lo / lineSize + 1
  · exact hlines a (by omega) hin
  · have hlt : a < lo := by
      simp only [lineSize] at *
      omega
    have hversion : ∀ i, version s.eeprom s.buffer writes i a = s.buffer a := by
      intro i
      cases i with
      | zero => exact hold a hlt
      | succ i => exact stage_out hw i (.inl hlt)
    rw [torn, hversion, hversion, ite_self]
    exact (hrun.others a (by omega) hin).elim (·.trans (hold a hlt)) id

theorem interleaved_append (hops : Interleaved [] ops) : Interleaved writes (writes ++ ops) := by
  induction writes with
  | nil => exact hops
  | cons op writes ih =>
    have hop := hw op (.head _)
    cases op with
    | write loc src => exact .write loc src (ih fun op' hop' => hw op' (.tail _ hop'))
    | read _ _ => cases hop
    | tick _ => cases hop

theorem TornAt.drop_writes (h : TornAt old m writes lo k s) (hsize : bound < storageSize)
    (hk : k ≤ writes.length) :
    TornAt old m writes lo writes.length (run step s (writes.drop k)) ∧
      (run step s (writes.drop k)).eeprom = s.eeprom ∧
      ∀ line ∈ dirtySet (run step s (writes.drop k)), line ∈ dirtySet s ∨ lo / lineSize ≤ line := by
  generalize hrest : writes.drop k = rest
  induction rest generalizing k s with
  | nil =>
    rw [drop_eq_nil_iff] at hrest
    rw [le_antisymm hrest hk]
    exact ⟨h, rfl, fun _ => .inl⟩
  | cons op rest ih =>
    have hlt : k < writes.length := by
      by_contra hge
      rw [drop_eq_nil_of_le (by omega)] at hrest
      cases hrest
    have htail : writes.drop (k + 1) = rest := by rw [← tail_drop, hrest, tail_cons]
    have hop := hw op (mem_of_mem_drop (hrest ▸ mem_cons_self))
    cases op with
    | write loc src =>
      obtain ⟨hrun, heeprom, hdirty⟩ := ih (h.write hw hsize hrest) (by omega) htail
      have hsrc : loc.toNat + src.length < storageSize := lt_of_le_of_lt hop.2 hsize
      obtain ⟨-, heeprom', -, hdirty'⟩ := writeBlock_of_initialised h.initialised hsrc
      rw [run_cons]
      refine ⟨hrun, heeprom.trans heeprom', fun line hline => ?_⟩
      rcases hdirty line hline with hline | hline
      · refine (hdirty' line hline).imp id fun hin => (Nat.div_le_div_right hop.1).trans hin.1
      · exact .inr hline
    | read _ _ => cases hop
    | tick _ => cases hop

end

theorem Synced.eeprom_eq (h : Synced s) (ha : a < storageSize) : s.eeprom a = s.buffer a := by
  by_contra hne
  have hdirty := h.tracked.dirty h.initialised a ha (Ne.symm hne)
  have hmem : a / lineSize ∈ dirtySet s := by
    refine mem_dirtySet.2 ⟨?_, hdirty⟩
    simp only [numLines, storageSize, lineSize] at ha ⊢
    omega
  rw [h.clean] at hmem
  exact absurd hmem (Finset.notMem_empty _)

theorem eeprom_writes_tick (hs : Synced s) (hw : ∀ op ∈ writes, Within lo bound op)
    (hsize : bound < storageSize) {b : ℕ} (hb : b < storageSize)
    (hline : b / lineSize = lo / lineSize)
    (hne : stage s.buffer writes writes.length b ≠ s.buffer b) (ha : a < storageSize) :
    (run step s (writes ++ [.tick true])).eeprom a =
      torn lo (stage s.buffer writes writes.length) s.buffer a := by
  obtain ⟨h, heeprom, hlines⟩ :=
    (tornAt_start hs.initialised hs.tracked writes lo).drop_writes hw hsize (zero_le _)
  rw [drop_zero] at h heeprom hlines
  have hrun : run step s (writes ++ [.tick true]) = timerTick (run step s writes) true := by
    simp only [run, foldl_append, foldl_cons, foldl_nil, step]
  have hdirty := h.tracked.dirty h.initialised b hb (by
    rwa [h.buffer b hb, heeprom, hs.eeprom_eq hb])
  rw [hline] at hdirty
  have hmem : lo / lineSize ∈ dirtySet (run step s writes) := by
    refine mem_dirtySet.2 ⟨?_, hdirty⟩
    simp only [numLines, storageSize, lineSize] at hb hline ⊢
    omega
  rw [hrun]
  obtain ⟨-, hempty⟩ | ⟨line, hline', hfirst, heq⟩ := h.tracked.timerTick_cases true
  · rw [hempty h.initialised] at hmem
    exact absurd hmem (Finset.notMem_empty _)
  · have hl : line = lo / lineSize := by
      rcases hlines line hline' with hold | hle
      · rw [hs.clean] at hold
        exact absurd hold (Finset.notMem_empty _)
      · by_contra hlt
        rw [hfirst _ (by omega)] at hdirty
        cases hdirty
    rw [heq, mtdWrite_true (mem_dirtySet.1 hline').1, hl]
    simp only [Memory.writeBlock_readBlock_apply]
    unfold torn
    split_ifs with hin hnext hnext
    · exact h.buffer a ha
    · simp only [nextLine, lineSize] at hin hnext
      omega
    · have hlow : a < lo := by
        simp only [nextLine, lineSize] at hin hnext
        omega
      rw [heeprom, hs.eeprom_eq ha, stage_out hw _ (.inl hlow)]
    · rw [heeprom, hs.eeprom_eq ha]

theorem interleaved_ticks (k : ℕ) : Interleaved [] (replicate k (.tick true)) := by
  induction k with
  | zero => exact .stop _
  | succ k ih => exact .tick true ih

theorem run_ticks (s : State) (k : ℕ) :
    run step s (replicate k (.tick true)) = (timerTick · true)^[k] s := by
  induction k generalizing s with
  | zero => rfl
  | succ k ih =>
    rw [replicate_succ, run_cons, ih]
    rfl

theorem TornAt.ticks (h : TornAt old m writes lo k s) (hw : ∀ op ∈ writes, Within lo bound op)
    (hbound : bound ≤ lo + lineSize) (n : ℕ) :
    TornAt old m writes lo k ((timerTick · true)^[n] s) := by
  induction n generalizing s with
  | zero => exact h
  | succ n ih => exact ih (h.tick hw hbound true)

theorem exists_eeprom_writes_ticks (hs : Synced s) (hw : ∀ op ∈ writes, Within lo bound op)
    (hbound : bound ≤ lo + lineSize) (hsize : bound < storageSize) :
    ∃ n, ∀ a < storageSize, (run step s (writes ++ replicate n (.tick true))).eeprom a =
      stage s.buffer writes writes.length a := by
  obtain ⟨h, -⟩ :=
    (tornAt_start hs.initialised hs.tracked writes lo).drop_writes hw hsize (zero_le _)
  rw [drop_zero] at h
  obtain ⟨htracked, hinit, hclean⟩ := dirtySet_ticks h.tracked h.initialised rfl
  refine ⟨(dirtySet (run step s writes)).card, fun a ha => ?_⟩
  rw [show run step s (writes ++ _) = run step (run step s writes) _ from foldl_append ..,
    run_ticks, Synced.eeprom_eq ⟨hinit, htracked, hclean⟩ ha, (h.ticks hw hbound _).buffer a ha]

end Torn

theorem synced_storageOpen_fresh (eeprom : ℕ → UInt8) : Synced (storageOpen (fresh eeprom)) where
  initialised := storageOpen_initialised _
  tracked := tracked_storageOpen (tracked_fresh eeprom)
  clean := by
    refine Finset.eq_empty_iff_forall_notMem.2 fun line hline => ?_
    obtain ⟨hlt, hget⟩ := mem_dirtySet.1 hline
    have hcleared : (storageOpen (fresh eeprom)).dirtyMask = (Bitmask.ofNumbits numLines).clearall :=
      rfl
    have hbit : line < 32 * (Bitmask.ofNumbits numLines).numwords := hlt.trans (by decide)
    rw [hcleared, Bitmask.get_clearall, decide_eq_true hbit] at hget
    cases hget

end Tm4cPilot.Px4Storage
