import Tm4cPilot.Rtt.Kernel

/-!
# Ready lists and ready bitmap

`Queues` relates the ready lists and the bitmap to a set of threads, and `rt_schedule` finds the
first thread of the lowest list.
-/

namespace Tm4cPilot.Rtt

open List BitVec Bool UInt8

instance {w : ℕ} (x : BitVec w) (i : ℕ) : Decidable (IsLowest x i) := by
  unfold IsLowest
  infer_instance

theorem lowestBitBitmap_isLowest :
    ∀ byte : BitVec 8, byte ≠ 0 → IsLowest byte (lowestBitBitmap.getD byte.toNat 0) := by
  decide +kernel

theorem getLsbD_byteOf (value : BitVec 32) (shift i : ℕ) :
    (byteOf value shift).getLsbD i = (decide (i < 8) && value.getLsbD (shift + i)) := by
  simp [byteOf]

variable {value : BitVec 32}

theorem isLowest_of_byteOf {shift i : ℕ} (byte : IsLowest (byteOf value shift) i)
    (below : ∀ j < shift, value.getLsbD j = false) : IsLowest value (shift + i) := by
  obtain ⟨bit, lower⟩ := byte
  rw [getLsbD_byteOf, and_eq_true, decide_eq_true_eq] at bit
  refine ⟨bit.2, fun j less => ?_⟩
  by_cases inside : j < shift
  · exact below j inside
  · have here := lower (j - shift) (by omega)
    have inByte : j - shift < 8 := by omega
    rw [getLsbD_byteOf, decide_eq_true inByte, Bool.true_and] at here
    rwa [show shift + (j - shift) = j by omega] at here

theorem zeros_of_byteOf_eq_zero {shift : ℕ} (below : ∀ j < shift, value.getLsbD j = false)
    (zero : byteOf value shift = 0) : ∀ j < shift + 8, value.getLsbD j = false := by
  intro j less
  by_cases inside : j < shift
  · exact below j inside
  · have here := getLsbD_byteOf value shift (j - shift)
    rw [zero, ofNat_eq_ofNat, getLsbD_zero, decide_eq_true (by omega), Bool.true_and]
      at here
    rw [here, show shift + (j - shift) = j by omega]

theorem rtFfs_isLowest (nonzero : value ≠ 0) : ∃ i, rtFfs value = i + 1 ∧ IsLowest value i := by
  have below0 : ∀ j < 0, value.getLsbD j = false := fun _ less => absurd less (Nat.not_lt_zero _)
  have found {shift : ℕ} (below : ∀ j < shift, value.getLsbD j = false)
      (byte : byteOf value shift ≠ 0) :
      ∃ i, lowestBitBitmap.getD (byteOf value shift).toNat 0 + (shift + 1) = i + 1 ∧
        IsLowest value i :=
    ⟨_, by omega, isLowest_of_byteOf (lowestBitBitmap_isLowest _ byte) below⟩
  unfold rtFfs
  rw [if_neg nonzero]
  split_ifs with first second third
  · exact found below0 first
  · exact found (zeros_of_byteOf_eq_zero below0 (not_not.mp first)) second
  · have below8 := zeros_of_byteOf_eq_zero below0 (not_not.mp first)
    exact found (zeros_of_byteOf_eq_zero below8 (not_not.mp second)) third
  · have below8 := zeros_of_byteOf_eq_zero below0 (not_not.mp first)
    have below16 := zeros_of_byteOf_eq_zero below8 (not_not.mp second)
    have below24 := zeros_of_byteOf_eq_zero below16 (not_not.mp third)
    refine found below24 fun fourth => nonzero (eq_zero_iff_getLsbD.mpr fun j => ?_)
    by_cases inside : j < 32
    · exact zeros_of_byteOf_eq_zero below24 fourth j inside
    · exact getLsbD_of_ge value j (by omega)

/-! ## Ready lists and bitmap -/

/-- The attributes are those of the priority. -/
structure Thread.HasAttributes (thread : Thread) : Prop where
  number_eq : thread.number = thread.currentPriority >>> 3
  numberMask_eq : thread.numberMask = 1#32 <<< (thread.currentPriority >>> 3).toNat
  highMask_eq : thread.highMask = 1#8 <<< (thread.currentPriority &&& 7).toNat

theorem Thread.hasAttributes_withPriority (thread : Thread) (priority : UInt8) :
    (thread.withPriority priority).HasAttributes := ⟨rfl, rfl, rfl⟩

variable {thread : Thread}

theorem Thread.HasAttributes.written (h : thread.HasAttributes) (s : Stat) (e : Err)
    (running : Bool) :
    ({ thread with stat := s, error := e, timer := running } : Thread).HasAttributes :=
  ⟨h.number_eq, h.numberMask_eq, h.highMask_eq⟩

theorem Thread.HasAttributes.number (h : thread.HasAttributes) :
    thread.number.toNat = thread.currentPriority.toNat / 8 := by
  rw [h.number_eq]
  simp [Nat.shiftRight_eq_div_pow]

theorem Thread.HasAttributes.numberMask (h : thread.HasAttributes) :
    thread.numberMask = twoPow 32 (thread.currentPriority.toNat / 8) := by
  rw [← h.number, h.numberMask_eq, h.number_eq]
  rfl

theorem Thread.HasAttributes.highMask (h : thread.HasAttributes) :
    thread.highMask = twoPow 8 (thread.currentPriority.toNat % 8) := by
  have low : (thread.currentPriority &&& 7).toNat = thread.currentPriority.toNat % 8 :=
    Nat.and_two_pow_sub_one_eq_mod thread.currentPriority.toNat 3
  rw [← low, h.highMask_eq]
  rfl

namespace Kernel

variable {k : Kernel}

/-! What the primitives change. -/

@[simp]
theorem thread_modify (t : Tid) (f : Thread → Thread) :
    (k.modify t f).thread = Function.update k.thread t (f (k.thread t)) := rfl

@[simp]
theorem list_modify (t : Tid) (f : Thread → Thread) : (k.modify t f).list = k.list := rfl

@[simp]
theorem currentThread_modify (t : Tid) (f : Thread → Thread) :
    (k.modify t f).currentThread = k.currentThread := rfl

@[simp]
theorem thread_listRemove (t : Tid) : (k.listRemove t).thread = k.thread := rfl

@[simp]
theorem list_listRemove (t : Tid) (head : ListHead) :
    (k.listRemove t).list head = (k.list head).erase t := rfl

@[simp]
theorem currentThread_listRemove (t : Tid) : (k.listRemove t).currentThread = k.currentThread := rfl

@[simp]
theorem thread_scheduleInsertThread (t : Tid) :
    (k.scheduleInsertThread t).thread =
      Function.update k.thread t { k.thread t with stat := .ready } := rfl

@[simp]
theorem list_scheduleInsertThread (t : Tid) (head : ListHead) :
    (k.scheduleInsertThread t).list head =
      if head = .ready (k.thread t).currentPriority then k.list head ++ [t] else k.list head := by
  by_cases here : head = .ready (k.thread t).currentPriority <;>
    simp [scheduleInsertThread, listInsertBefore, here]

@[simp]
theorem currentThread_scheduleInsertThread (t : Tid) :
    (k.scheduleInsertThread t).currentThread = k.currentThread := rfl

@[simp]
theorem thread_scheduleRemoveThread (t : Tid) : (k.scheduleRemoveThread t).thread = k.thread := by
  unfold scheduleRemoveThread
  dsimp only
  split_ifs <;> rfl

@[simp]
theorem list_scheduleRemoveThread (t : Tid) (head : ListHead) :
    (k.scheduleRemoveThread t).list head = (k.list head).erase t := by
  unfold scheduleRemoveThread
  dsimp only
  split_ifs <;> rfl

@[simp]
theorem currentThread_scheduleRemoveThread (t : Tid) :
    (k.scheduleRemoveThread t).currentThread = k.currentThread := by
  unfold scheduleRemoveThread
  dsimp only
  split_ifs <;> rfl

def bitmap (k : Kernel) : TwoLevel 32 8 := ⟨k.readyPriorityGroup, k.readyTable⟩

/-- The bit of a priority. -/
def ReadyBit (k : Kernel) (p : UInt8) : Prop := k.bitmap.Mem (p.toNat / 8) (p.toNat % 8)

/-- The ready lists hold a set of threads, and the bitmap shows them. -/
structure Queues (k : Kernel) (linked : Tid → Prop) : Prop where
  consistent : k.bitmap.Consistent
  bit : ∀ p, k.ReadyBit p ↔ k.list (.ready p) ≠ []
  mem : ∀ p t, t ∈ k.list (.ready p) ↔ linked t ∧ p = (k.thread t).currentPriority
  nodup : ∀ p, (k.list (.ready p)).Nodup

variable {p : UInt8}

theorem position_inj {q : UInt8} :
    q.toNat / 8 = p.toNat / 8 ∧ q.toNat % 8 = p.toNat % 8 ↔ q = p := by
  rw [← UInt8.toNat_inj]
  omega

variable {linked : Tid → Prop} {t : Tid}

theorem Queues.erase_eq (queues : k.Queues linked)
    (other : ¬ (linked t ∧ p = (k.thread t).currentPriority)) :
    (k.list (.ready p)).erase t = k.list (.ready p) :=
  erase_of_not_mem (mt (queues.mem p t).mp other)

theorem Queues.modify (queues : k.Queues linked) (t : Tid) (f : Thread → Thread)
    (keeps : ¬ linked t ∨ (f (k.thread t)).currentPriority = (k.thread t).currentPriority) :
    (k.modify t f).Queues linked := by
  refine ⟨queues.consistent, queues.bit, fun p u => ?_, queues.nodup⟩
  rw [show (k.modify t f).list = k.list from rfl, queues.mem]
  by_cases same : u = t
  · subst same
    refine and_congr_right fun isLinked => ?_
    rcases keeps with unlinked | keeps
    · exact absurd isLinked unlinked
    · simp [Kernel.modify, keeps]
  · simp [Kernel.modify, same]

theorem bitmap_scheduleInsertThread (attributes : (k.thread t).HasAttributes) :
    (k.scheduleInsertThread t).bitmap = k.bitmap.set ((k.thread t).currentPriority.toNat / 8)
      ((k.thread t).currentPriority.toNat % 8) := by
  simp [scheduleInsertThread, bitmap, TwoLevel.set, listInsertBefore, Kernel.modify,
    ← attributes.number, attributes.numberMask, attributes.highMask]

theorem bitmap_scheduleRemoveThread (attributes : (k.thread t).HasAttributes) :
    (k.scheduleRemoveThread t).bitmap =
      if (k.list (.ready (k.thread t).currentPriority)).erase t = [] then
        k.bitmap.clear ((k.thread t).currentPriority.toNat / 8)
          ((k.thread t).currentPriority.toNat % 8)
      else k.bitmap := by
  unfold scheduleRemoveThread
  dsimp only [listRemove]
  by_cases empty : (k.list (.ready (k.thread t).currentPriority)).erase t = []
  · rw [if_pos empty, if_pos empty]
    simp [bitmap, TwoLevel.clear, ← attributes.number, attributes.numberMask, attributes.highMask]
  · rw [if_neg empty, if_neg empty]
    rfl

theorem position_lt (p : UInt8) : p.toNat / 8 < 32 ∧ p.toNat % 8 < 8 := by
  have := p.toNat_lt
  omega

section

variable (queues : k.Queues linked)
include queues

theorem Queues.insert (attributes : (k.thread t).HasAttributes) (unlinked : ¬ linked t) :
    (k.scheduleInsertThread t).Queues (fun u => linked u ∨ u = t) := by
  have inside := position_lt (k.thread t).currentPriority
  have keeps (u : Tid) : ((k.scheduleInsertThread t).thread u).currentPriority =
      (k.thread u).currentPriority := by
    by_cases same : u = t
    · simp [same]
    · simp [same]
  refine ⟨?_, fun p => ?_, fun p u => ?_, fun p => ?_⟩
  · rw [bitmap_scheduleInsertThread attributes]
    exact queues.consistent.set inside.1 inside.2
  · rw [ReadyBit, bitmap_scheduleInsertThread attributes,
      queues.consistent.mem_set inside.1 inside.2, position_inj, list_scheduleInsertThread]
    by_cases here : p = (k.thread t).currentPriority
    · simp [here]
    · simpa [here, ReadyBit] using queues.bit p
  · rw [keeps, list_scheduleInsertThread]
    by_cases here : p = (k.thread t).currentPriority
    · subst here
      rw [if_pos rfl, mem_append, mem_singleton, queues.mem]
      by_cases same : u = t
      · simp [same]
      · simp [same]
    · rw [if_neg (by simpa using here), queues.mem]
      by_cases same : u = t
      · simp [same, here, unlinked]
      · simp [same]
  · rw [list_scheduleInsertThread]
    split_ifs
    · refine nodup_append.mpr ⟨queues.nodup p, nodup_singleton t, ?_⟩
      rintro u member _ isT rfl
      rw [mem_singleton] at isT
      exact unlinked (isT ▸ ((queues.mem p u).mp member).1)
    · exact queues.nodup p

theorem Queues.remove (attributes : (k.thread t).HasAttributes) :
    (k.scheduleRemoveThread t).Queues (fun u => linked u ∧ u ≠ t) := by
  have inside := position_lt (k.thread t).currentPriority
  have other {p : UInt8} (ne : p ≠ (k.thread t).currentPriority) :
      (k.list (.ready p)).erase t = k.list (.ready p) := queues.erase_eq fun h => ne h.2
  refine ⟨?_, fun p => ?_, fun p u => ?_, fun p => ?_⟩
  · rw [bitmap_scheduleRemoveThread attributes]
    split_ifs
    · exact queues.consistent.clear inside.1
    · exact queues.consistent
  · rw [ReadyBit, bitmap_scheduleRemoveThread attributes, list_scheduleRemoveThread]
    split_ifs with empty
    · rw [queues.consistent.mem_clear inside.1, position_inj]
      by_cases here : p = (k.thread t).currentPriority
      · simp [here, empty]
      · rw [other here]
        simpa [here, ReadyBit] using queues.bit p
    · by_cases here : p = (k.thread t).currentPriority
      · subst here
        refine iff_of_true ((queues.bit _).mpr fun none => empty ?_) empty
        rw [none, erase_nil]
      · rw [other here]
        exact queues.bit p
  · rw [list_scheduleRemoveThread, thread_scheduleRemoveThread, (queues.nodup p).mem_erase_iff,
      queues.mem]
    tauto
  · rw [list_scheduleRemoveThread]
    exact (queues.nodup p).erase t

theorem Queues.congr {linked' : Tid → Prop} (same : ∀ t, linked t ↔ linked' t) : k.Queues linked' :=
  ⟨queues.consistent, queues.bit, fun p t => by rw [queues.mem, same], queues.nodup⟩

theorem Queues.of_perm {k' : Kernel} (threads : k'.thread = k.thread)
    (bitmap : k'.bitmap = k.bitmap) (perm : ∀ p, (k'.list (.ready p)).Perm (k.list (.ready p))) :
    k'.Queues linked := by
  refine ⟨bitmap ▸ queues.consistent, fun p => ?_, fun p t => ?_, fun p => ?_⟩
  · rw [ReadyBit, bitmap, ← length_pos_iff, (perm p).length_eq, length_pos_iff]
    exact queues.bit p
  · rw [(perm p).mem_iff, threads, queues.mem]
  · exact (perm p).nodup_iff.mpr (queues.nodup p)

theorem Queues.listRemove (unlinked : ¬ linked t) : (k.listRemove t).Queues linked :=
  queues.of_perm rfl rfl fun p => .of_eq (queues.erase_eq (p := p) fun h => unlinked h.1)

end

theorem isLowest_setWidth {byte : BitVec 8} {i : ℕ} (h : IsLowest (byte.setWidth 32) i) :
    IsLowest byte i := by
  obtain ⟨bit, lower⟩ := h
  simp only [getLsbD_setWidth, and_eq_true, and_eq_false_iff, decide_eq_true_eq,
    decide_eq_false_iff_not] at bit lower
  exact ⟨bit.2, fun j less => (lower j less).resolve_left (by omega)⟩

theorem Queues.highestReadyPriority (queues : k.Queues linked)
    (nonzero : k.readyPriorityGroup ≠ 0) :
    ∃ p : UInt8, k.highestReadyPriority = some p.toNat ∧ k.list (.ready p) ≠ [] ∧
      ∀ q, k.list (.ready q) ≠ [] → p ≤ q := by
  obtain ⟨n, ffs, row⟩ := rtFfs_isLowest nonzero
  have inRow := row.lt
  have byte : k.readyTable n ≠ 0#8 := (queues.consistent n inRow).mp row.1
  have wide : (k.readyTable n).setWidth 32 ≠ 0 := by
    intro zero
    apply byte
    have := congrArg (setWidth 8) zero
    simpa using this
  obtain ⟨i, ffs', bit⟩ := rtFfs_isLowest wide
  have bit := isLowest_setWidth bit
  have inByte := bit.lt
  have value : (UInt8.ofNat (n * 8 + i)).toNat = n * 8 + i :=
    toNat_ofNat_of_lt' (by simp only [size]; omega)
  refine ⟨UInt8.ofNat (n * 8 + i), ?_, ?_, fun q nonempty => ?_⟩
  · simp only [Kernel.highestReadyPriority, if_neg nonzero, ffs, Nat.add_sub_cancel, ffs', value]
    rfl
  · rw [← queues.bit, ReadyBit, value, show (n * 8 + i) / 8 = n by omega,
      show (n * 8 + i) % 8 = i by omega]
    exact ⟨row.1, bit.1⟩
  · have low := ((queues.bit q).mpr nonempty).lowest row bit
    rw [le_iff_toNat_le, value]
    omega

theorem Queues.empty_of_group (queues : k.Queues linked) (zero : k.readyPriorityGroup = 0)
    (p : UInt8) : k.list (.ready p) = [] := by
  by_contra nonempty
  have row := ((queues.bit p).mpr nonempty).1
  rw [bitmap, zero, ofNat_eq_ofNat, getLsbD_zero] at row
  exact false_ne_true row

/-- The first thread of the lowest ready list. -/
structure Selected (k : Kernel) (t : Tid) : Prop where
  first : (k.list (.ready (k.thread t).currentPriority)).head? = some t
  lowest : ∀ q, k.list (.ready q) ≠ [] → (k.thread t).currentPriority ≤ q

theorem Queues.toThread_selected (queues : k.Queues linked) (next : k.toThread = some (p, t)) :
    k.Selected t := by
  have nonzero : k.readyPriorityGroup ≠ 0 := by
    intro zero
    simp [toThread, Kernel.highestReadyPriority, zero] at next
  obtain ⟨q, highest, -, lowest⟩ := queues.highestReadyPriority nonzero
  simp only [toThread, highest, Option.bind_eq_bind, Option.bind_some, UInt8.ofNat_toNat,
    Option.bind_eq_some_iff, Option.pure_def, Option.some.injEq, Prod.mk.injEq] at next
  obtain ⟨u, first, rfl, rfl⟩ := next
  have here : q = (k.thread u).currentPriority :=
    ((queues.mem q u).mp (mem_of_mem_head? first)).2
  exact ⟨here ▸ first, here ▸ lowest⟩

theorem Queues.exists_toThread (queues : k.Queues linked) {u : Tid} (isLinked : linked u) :
    ∃ p t, k.toThread = some (p, t) := by
  have nonempty : k.list (.ready (k.thread u).currentPriority) ≠ [] :=
    ne_nil_of_mem ((queues.mem _ u).mpr ⟨isLinked, rfl⟩)
  have nonzero : k.readyPriorityGroup ≠ 0 := fun zero => nonempty (queues.empty_of_group zero _)
  obtain ⟨q, highest, some, -⟩ := queues.highestReadyPriority nonzero
  obtain ⟨t, first⟩ := Option.ne_none_iff_exists'.mp (mt head?_eq_none_iff.mp some)
  exact ⟨q, t, by simp [toThread, highest, first]⟩

end Kernel

end Tm4cPilot.Rtt
