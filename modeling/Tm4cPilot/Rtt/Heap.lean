import Tm4cPilot.Lib.Blocks

/-!
# The RT-Thread heap

`rt_malloc`, `rt_calloc`, `rt_realloc` and `rt_free` of `mem.c`, with offsets from `heap_ptr` for
addresses.  The headers are kept as records too, and writing one writes its bytes.  The statistics
and the assertions are left out.  A loop that does not end has no result.
-/

namespace Tm4cPilot.Rtt

open Function Nat Set

/-- `RT_ALIGN` to `RT_ALIGN_SIZE`. -/
@[irreducible] def alignUp (size : UInt32) : UInt32 := (size + 4 - 1) &&& ~~~(4 - 1)

/-- `RT_ALIGN_DOWN` to `RT_ALIGN_SIZE`. -/
@[irreducible] def alignDown (size : UInt32) : UInt32 := size &&& ~~~(4 - 1)

/-- The difference of two numbers of type `rt_size_t`. -/
@[irreducible] def subWrap (x y : ℕ) : ℕ := (x + 2 ^ 32 - y) % 2 ^ 32

def sizeofStructMem : ℕ := 12

def minSize : ℕ := 12

def heapMagic : ℕ := 0x1ea0

/-- `struct heap_mem`. -/
structure HeapMem where
  used : Bool
  next : ℕ
  prev : ℕ
  deriving DecidableEq, Repr

/-- The bytes of a header. -/
def HeapMem.byte (m : HeapMem) (i : ℕ) : UInt8 :=
  let word := if i < 4 then heapMagic + (if m.used then 2 ^ 16 else 0)
    else if i < 8 then m.next else m.prev
  UInt8.ofNat (word >>> (8 * (i % 4)))

/-- `heap_ptr`, `mem_size_aligned`, the headers, the memory and `lfree`. -/
structure Heap where
  heapPtr : ℕ
  memSizeAligned : ℕ
  mem : ℕ → HeapMem
  data : ℕ → UInt8
  lfree : ℕ

namespace Heap

variable (h : Heap)

/-- The last header. -/
def heapEnd : ℕ := h.memSizeAligned + sizeofStructMem

/-- A bound for the loops. -/
def rounds : ℕ := h.heapEnd + 1

/-- A header is written. -/
def modify (b : ℕ) (f : HeapMem → HeapMem) : Heap :=
  { h with
    mem := update h.mem b (f (h.mem b))
    data := fun a => if b ≤ a ∧ a < b + sizeofStructMem then (f (h.mem b)).byte (a - b) else h.data a }

/-- `rt_memset` with zeros. -/
def memset (p n : ℕ) : Heap :=
  { h with data := fun a => if p ≤ a ∧ a < p + n then 0 else h.data a }

def memcpy (dst src n : ℕ) : Heap :=
  { h with data := fun a => if dst ≤ a ∧ a < dst + n then h.data (src + (a - dst)) else h.data a }

/-- The headers of an empty heap. -/
def prepare : Heap :=
  (h.modify 0 fun _ => ⟨false, h.heapEnd, 0⟩).modify h.heapEnd fun _ => ⟨true, h.heapEnd, h.heapEnd⟩

/-- `rt_system_heap_init`, with what was in the memory before. -/
def systemHeapInit (mem : ℕ → HeapMem) (data : ℕ → UInt8) (beginAddr endAddr : UInt32) :
    Option Heap :=
  let beginAlign := alignUp beginAddr
  let endAlign := alignDown endAddr
  if 24 < endAlign ∧ beginAlign ≤ endAlign - 24 then
    let memSizeAligned := (endAlign - beginAlign - 24).toNat
    some (prepare { heapPtr := beginAlign.toNat, memSizeAligned, mem, data, lfree := 0 })
  else none

/-- A block is cut in two. -/
def split (ptr ptr2 : ℕ) : Heap :=
  let next := (h.mem ptr).next
  let h := h.modify ptr2 fun _ => ⟨false, next, ptr⟩
  let h := h.modify ptr fun mem => { mem with next := ptr2 }
  if next ≠ h.heapEnd then h.modify next fun mem => { mem with prev := ptr2 } else h

/-- Two blocks are combined. -/
def join (mem nmem : ℕ) : Heap :=
  let next := (h.mem nmem).next
  let h := { h with lfree := if h.lfree = nmem then mem else h.lfree }
  let h := h.modify mem fun m => { m with next := next }
  h.modify next fun m => { m with prev := mem }

/-- `plug_holes`: a free block after it is added. -/
def plugForward (mem : ℕ) : Heap :=
  let nmem := (h.mem mem).next
  if mem ≠ nmem ∧ (h.mem nmem).used = false ∧ nmem ≠ h.heapEnd then h.join mem nmem else h

/-- `plug_holes`: it is added to a free one before it. -/
def plugBackward (mem : ℕ) : Heap :=
  let pmem := (h.mem mem).prev
  if pmem ≠ mem ∧ (h.mem pmem).used = false then h.join pmem mem else h

def plugHoles (mem : ℕ) : Heap := (h.plugForward mem).plugBackward mem

/-! ## The calls -/

/-- The bytes of a block. -/
def room (ptr : ℕ) : ℕ := subWrap (h.mem ptr).next (ptr + sizeofStructMem)

/-- The loop of `rt_malloc`, with a bound for its rounds. -/
def search (size : ℕ) : ℕ → ℕ → Option (Option ℕ)
  | 0, _ => none
  | rounds + 1, ptr =>
    if ptr < subWrap h.memSizeAligned size then
      if (h.mem ptr).used = false ∧ size ≤ h.room ptr then some (some ptr)
      else search size rounds (h.mem ptr).next
    else some none

/-- The block is used, and cut if it is large. -/
def take (ptr size : ℕ) : Heap :=
  let h := if size + sizeofStructMem + minSize ≤ h.room ptr
    then h.split ptr (ptr + sizeofStructMem + size) else h
  h.modify ptr fun mem => { mem with used := true }

/-- The next free block. -/
def lowestFree : ℕ → ℕ → Option ℕ
  | 0, _ => none
  | rounds + 1, lfree =>
    if (h.mem lfree).used = true ∧ lfree ≠ h.heapEnd then lowestFree rounds (h.mem lfree).next
    else some lfree

/-- A block is taken, and the lowest free one updated. -/
def grant (ptr size : ℕ) : Option (Heap × Option ℕ) :=
  let h := h.take ptr size
  if ptr = h.lfree then
    (h.lowestFree h.rounds h.lfree).map fun lfree => ({ h with lfree }, some (ptr + sizeofStructMem))
  else some (h, some (ptr + sizeofStructMem))

def malloc (size : UInt32) : Option (Heap × Option ℕ) :=
  if size = 0 then some (h, none)
  else
    let size := (alignUp size).toNat
    if h.memSizeAligned < size then some (h, none)
    else
      let size := if size < minSize then minSize else size
      (h.search size h.rounds h.lfree).bind fun found =>
        found.elim (some (h, none)) fun ptr => h.grant ptr size

/-- `rt_calloc`, which may write zeros beyond the heap. -/
def calloc (count size : UInt32) : Option (Heap × Option ℕ) :=
  (h.malloc (count * size)).bind fun
    | (h, none) => some (h, none)
    | (h, some p) =>
      if p + (count * size).toNat ≤ h.heapEnd then some (h.memset p (count * size).toNat, some p)
      else none

/-- `lfree` is lowered. -/
def lower (mem : ℕ) : Heap := { h with lfree := if mem < h.lfree then mem else h.lfree }

def free (rmem : Option ℕ) : Heap :=
  match rmem with
  | none => h
  | some rmem =>
    if h.heapEnd ≤ rmem then h
    else
      let mem := rmem - sizeofStructMem
      ((h.modify mem fun m => { m with used := false }).lower mem).plugHoles mem

def realloc (rmem : Option ℕ) (newsize : UInt32) : Option (Heap × Option ℕ) :=
  let newsize := alignUp newsize
  if h.memSizeAligned < newsize.toNat then some (h, none)
  else if newsize = 0 then some (h.free rmem, none)
  else
    match rmem with
    | none => h.malloc newsize
    | some rmem =>
      if h.heapEnd ≤ rmem then some (h, some rmem)
      else
        let ptr := rmem - sizeofStructMem
        let size := h.room ptr
        if size = newsize.toNat then some (h, some rmem)
        else if newsize.toNat + sizeofStructMem + minSize < size then
          let ptr2 := ptr + sizeofStructMem + newsize.toNat
          some ((h.split ptr ptr2).plugHoles ptr2, some rmem)
        else
          (h.malloc newsize).map fun result =>
            (result.2.elim result.1 fun nmem =>
              (result.1.memcpy nmem rmem (min size newsize.toNat)).free (some rmem), result.2)

end Heap

theorem and_mask {x : ℕ} (small : x < 2 ^ 32) : x &&& 0xfffffffc = x / 4 * 4 := by
  rw [show x / 4 * 4 = x >>> 2 <<< 2 by rw [shiftRight_eq_div_pow, shiftLeft_eq]]
  apply eq_of_testBit_eq
  intro i
  rw [testBit_and, testBit_shiftLeft, testBit_shiftRight]
  by_cases high : 32 ≤ i
  · have none : x.testBit i = false :=
      Nat.testBit_lt_two_pow (small.trans_le (Nat.pow_le_pow_right (by omega) high))
    rw [Nat.add_sub_cancel' (by omega), none, Bool.false_and, Bool.and_false]
  · have bits : ∀ i < 32, (0xfffffffc : ℕ).testBit i = decide (2 ≤ i) := by decide
    rw [bits i (by omega)]
    by_cases two : 2 ≤ i
    · simp [two, Nat.add_sub_cancel' two]
    · simp [two]

theorem toNat_alignUp (size : UInt32) :
    (alignUp size).toNat = (size.toNat + 3) % 2 ^ 32 / 4 * 4 := by
  have sum : (size + 4 - 1).toNat = (size.toNat + 3) % 2 ^ 32 := by
    rw [UInt32.toNat_sub, UInt32.toNat_add]
    simp only [UInt32.reduceToNat]
    omega
  rw [alignUp, UInt32.toNat_and, show (~~~(4 - 1) : UInt32).toNat = 0xfffffffc from rfl,
    and_mask (UInt32.toNat_lt _), sum]

theorem toNat_alignDown (size : UInt32) : (alignDown size).toNat = size.toNat / 4 * 4 := by
  rw [alignDown, UInt32.toNat_and, show (~~~(4 - 1) : UInt32).toNat = 0xfffffffc from rfl,
    and_mask (UInt32.toNat_lt _)]

theorem toNat_alignUp_of_le {size : UInt32} (small : size.toNat ≤ 0xfffffffc) :
    size.toNat ≤ (alignUp size).toNat ∧ (alignUp size).toNat < size.toNat + 4 := by
  rw [toNat_alignUp]
  omega

theorem four_dvd_alignUp (size : UInt32) : 4 ∣ (alignUp size).toNat := by
  rw [toNat_alignUp]
  exact dvd_mul_left 4 _

theorem alignUp_alignUp (size : UInt32) : alignUp (alignUp size) = alignUp size := by
  apply UInt32.toNat_inj.mp
  have lt := (alignUp size).toNat_lt
  have aligned := four_dvd_alignUp size
  rw [toNat_alignUp (alignUp size)]
  omega

theorem subWrap_of_le {x y : ℕ} (le : y ≤ x) (small : x < 2 ^ 32) : subWrap x y = x - y := by
  rw [subWrap]
  omega

/-! ## The layout of the heap -/

namespace Heap

variable {h : Heap} {H H' : Set ℕ} {b p : ℕ}

theorem mem_modify (b : ℕ) (f : HeapMem → HeapMem) (c : ℕ) :
    (h.modify b f).mem c = if c = b then f (h.mem c) else h.mem c := by
  by_cases isB : c = b
  · rw [if_pos isB, isB]
    exact update_self ..
  · rw [if_neg isB]
    exact update_of_ne isB ..

@[simp] theorem heapEnd_modify (b : ℕ) (f : HeapMem → HeapMem) :
    (h.modify b f).heapEnd = h.heapEnd := rfl

theorem data_modify {a : ℕ} (outside : a < b ∨ b + sizeofStructMem ≤ a) (f : HeapMem → HeapMem) :
    (h.modify b f).data a = h.data a := if_neg (by omega)

/-- The bytes of the headers are those of the records. -/
def Written (h : Heap) (H : Set ℕ) : Prop :=
  ∀ b ∈ H, ∀ i < sizeofStructMem, h.data (b + i) = (h.mem b).byte i

/-- The headers do not overlap. -/
def Apart (H : Set ℕ) (b : ℕ) : Prop :=
  ∀ c ∈ H, c ≠ b → c + sizeofStructMem ≤ b ∨ b + sizeofStructMem ≤ c

theorem Written.modify (written : h.Written H) (apart : Apart H b) (f : HeapMem → HeapMem) :
    (h.modify b f).Written (insert b H) := by
  intro c hc i inside
  rw [mem_modify]
  by_cases isB : c = b
  · subst isB
    rw [if_pos rfl]
    have here : (h.modify c f).data (c + i) = (f (h.mem c)).byte (c + i - c) := if_pos (by omega)
    rw [here, Nat.add_sub_cancel_left]
  · have old : c ∈ H := hc.resolve_left isB
    rw [if_neg isB, data_modify (by have := apart c old isB; omega), written c old i inside]

theorem Written.mono (written : h.Written H) (sub : H' ⊆ H) : h.Written H' :=
  fun b hb => written b (sub hb)

/-- The heap is a sequence of blocks with the headers at `H`. -/
structure Sound (h : Heap) (H : Set ℕ) : Prop where
  blocks : Blocks sizeofStructMem h.heapEnd (fun b => (h.mem b).next) (fun b => (h.mem b).prev) H
  aligned : ∀ b ∈ H, 4 ∣ b
  first : (h.mem 0).prev = 0
  endUsed : (h.mem h.heapEnd).used = true
  endNext : (h.mem h.heapEnd).next = h.heapEnd
  lfree : h.lfree ∈ H
  ptr : 4 ∣ h.heapPtr
  small : h.heapPtr + h.memSizeAligned + 24 < 2 ^ 32
  written : h.Written H

namespace Sound

variable (sound : h.Sound H)
include sound

theorem next_le (hb : b ∈ H) (notEnd : b ≠ h.heapEnd) : (h.mem b).next ≤ h.heapEnd :=
  sound.blocks.le_last _ (sound.blocks.next_mem b hb notEnd)

theorem next_mem (hb : b ∈ H) : (h.mem b).next ∈ H := by
  by_cases isEnd : b = h.heapEnd
  · rw [isEnd, sound.endNext]
    exact sound.blocks.last_mem
  · exact sound.blocks.next_mem b hb isEnd

theorem apart (hb : b ∈ H) : Apart H b :=
  fun _ hc other => sound.blocks.gap_apart hb hc other

theorem written_modify (hb : b ∈ H) (f : HeapMem → HeapMem) : (h.modify b f).Written H := by
  have written := sound.written.modify (sound.apart hb) f
  rwa [insert_eq_of_mem hb] at written

theorem room_eq (hb : b ∈ H) (notEnd : b ≠ h.heapEnd) :
    h.room b = (h.mem b).next - (b + sizeofStructMem) := by
  refine subWrap_of_le (sound.blocks.gap_le b hb notEnd) ?_
  have := sound.next_le hb notEnd
  have := sound.small
  simp only [heapEnd, sizeofStructMem] at *
  omega

theorem modify_used (hb : b ∈ H) (notEnd : b ≠ h.heapEnd) (used : Bool) :
    (h.modify b fun m => { m with used }).Sound H := by
  have same (c : ℕ) : ((h.modify b fun m => { m with used }).mem c).next = (h.mem c).next ∧
      ((h.modify b fun m => { m with used }).mem c).prev = (h.mem c).prev := by
    rw [mem_modify]
    split <;> exact ⟨rfl, rfl⟩
  refine ⟨sound.blocks.congr (fun c _ _ => (same c).1) (fun c _ _ => (same c).2), sound.aligned,
    ?_, ?_, ?_, sound.lfree, sound.ptr, sound.small, sound.written_modify hb _⟩
  · rw [(same 0).2]
    exact sound.first
  · rw [heapEnd_modify, mem_modify, if_neg (Ne.symm notEnd)]
    exact sound.endUsed
  · rw [(same _).1]
    exact sound.endNext

theorem with_lfree (hb : b ∈ H) : { h with lfree := b }.Sound H :=
  ⟨sound.blocks, sound.aligned, sound.first, sound.endUsed, sound.endNext, hb, sound.ptr, sound.small,
    sound.written⟩

end Sound

/-! ### Splitting and joining blocks -/

theorem mem_split (b p c : ℕ) :
    (h.split b p).mem c =
      let mem := if c = p then ⟨false, (h.mem b).next, b⟩ else h.mem c
      let mem := if c = b then { mem with next := p } else mem
      if c = (h.mem b).next ∧ c ≠ h.heapEnd then { mem with prev := p } else mem := by
  by_cases isEnd : (h.mem b).next = h.heapEnd
  · rw [split, heapEnd_modify, heapEnd_modify, if_neg (not_not.mpr isEnd), mem_modify, mem_modify]
    grind
  · rw [split, heapEnd_modify, heapEnd_modify, if_pos isEnd, mem_modify, mem_modify, mem_modify]
    grind

theorem next_split (b p c : ℕ) : ((h.split b p).mem c).next =
    if c = b then p else if c = p then (h.mem b).next else (h.mem c).next := by
  rw [mem_split]
  grind

theorem prev_split (b p c : ℕ) : ((h.split b p).mem c).prev =
    if c = (h.mem b).next ∧ c ≠ h.heapEnd then p else if c = p then b else (h.mem c).prev := by
  rw [mem_split]
  grind

theorem used_split (b p c : ℕ) :
    ((h.split b p).mem c).used = if c = p then false else (h.mem c).used := by
  rw [mem_split]
  grind

theorem rest_split (b p : ℕ) : (h.split b p).heapPtr = h.heapPtr ∧
    (h.split b p).memSizeAligned = h.memSizeAligned ∧ (h.split b p).lfree = h.lfree := by
  simp only [split]
  split_ifs <;> exact ⟨rfl, rfl, rfl⟩

@[simp] theorem heapEnd_split (b p : ℕ) : (h.split b p).heapEnd = h.heapEnd := by
  rw [heapEnd, (rest_split b p).2.1, heapEnd]

theorem data_split {a : ℕ} (outsideP : a < p ∨ p + sizeofStructMem ≤ a)
    (outsideB : a < b ∨ b + sizeofStructMem ≤ a)
    (outsideNext : a < (h.mem b).next ∨ (h.mem b).next + sizeofStructMem ≤ a) :
    (h.split b p).data a = h.data a := by
  simp only [split]
  split_ifs
  · rw [data_modify outsideNext, data_modify outsideB, data_modify outsideP]
  · rw [data_modify outsideB, data_modify outsideP]

theorem mem_join (b n c : ℕ) :
    (h.join b n).mem c =
      let mem := if c = b then { h.mem c with next := (h.mem n).next } else h.mem c
      if c = (h.mem n).next then { mem with prev := b } else mem := by
  rw [join, mem_modify, mem_modify]

theorem next_join (b n c : ℕ) : ((h.join b n).mem c).next =
    if c = b then (h.mem n).next else (h.mem c).next := by
  rw [mem_join]
  grind

theorem prev_join (b n c : ℕ) : ((h.join b n).mem c).prev =
    if c = (h.mem n).next then b else (h.mem c).prev := by
  rw [mem_join]
  grind

@[simp] theorem used_join (b n c : ℕ) : ((h.join b n).mem c).used = (h.mem c).used := by
  rw [mem_join]
  grind

@[simp] theorem heapEnd_join (b n : ℕ) : (h.join b n).heapEnd = h.heapEnd := rfl

theorem data_join {n a : ℕ} (outsideB : a < b ∨ b + sizeofStructMem ≤ a)
    (outsideNext : a < (h.mem n).next ∨ (h.mem n).next + sizeofStructMem ≤ a) :
    (h.join b n).data a = h.data a := by
  rw [join, data_modify outsideNext, data_modify outsideB]

namespace Sound

section Split

variable (sound : h.Sound H) (hb : b ∈ H) (notEnd : b ≠ h.heapEnd)
  (after : b + sizeofStructMem ≤ p) (fits : p + sizeofStructMem ≤ (h.mem b).next)

include sound hb notEnd after fits

theorem apart_inside : Apart H p := by
  intro c hc _
  rcases sound.blocks.between b hb notEnd c hc with before | behind
  · exact .inl (by omega)
  · exact .inr (fits.trans behind)

theorem written_split : (h.split b p).Written (insert p H) := by
  have apartP := sound.apart_inside hb notEnd after fits
  -- the new header is apart from the old ones, and so they are from it
  have apart (c : ℕ) (hc : c ∈ H) : Apart (insert p H) c := by
    rintro d (rfl | old) other
    · exact (apartP c hc (Ne.symm other)).symm
    · exact sound.apart hc d old other
  have isNext := sound.blocks.next_mem b hb notEnd
  have first := sound.written.modify apartP fun _ => ⟨false, (h.mem b).next, b⟩
  have second := first.modify (apart b hb) fun mem => { mem with next := p }
  rw [insert_eq_of_mem (.inr hb)] at second
  simp only [Heap.split]
  split_ifs
  · have third := second.modify (apart _ isNext) fun mem => { mem with prev := p }
    rwa [insert_eq_of_mem (.inr isNext)] at third
  · exact second

theorem split (aligned : 4 ∣ p) : (h.split b p).Sound (insert p H) := by
  have nextLe := sound.next_le hb notEnd
  have positive : 0 < sizeofStructMem := by decide
  have notB : p ≠ b := by omega
  have notP (c : ℕ) (hc : c ∈ H) : c ≠ p := fun same =>
    sound.blocks.fresh hb notEnd (by omega) (by omega) (same ▸ hc)
  refine ⟨?_, ?_, ?_, ?_, ?_, ?_, ?_, ?_, sound.written_split hb notEnd after fits⟩
  · rw [heapEnd_split]
    refine sound.blocks.split hb notEnd positive after fits ?_ ?_ ?_ ?_ ?_ ?_
    · rw [next_split, if_pos rfl]
    · rw [next_split, if_neg notB, if_pos rfl]
    · intro c hc other
      rw [next_split, if_neg other, if_neg (notP c hc)]
    · rw [prev_split, if_neg (by omega), if_pos rfl]
    · intro inside
      rw [prev_split, if_pos ⟨rfl, inside⟩]
    · intro c hc _ other
      rw [prev_split, if_neg (fun both => other both.1), if_neg (notP c hc)]
  · intro c hc
    rcases hc with rfl | old
    · exact aligned
    · exact sound.aligned c old
  · rw [prev_split, if_neg (by omega), if_neg (by omega)]
    exact sound.first
  · rw [heapEnd_split, used_split, if_neg (by omega)]
    exact sound.endUsed
  · rw [heapEnd_split, next_split, if_neg (Ne.symm notEnd), if_neg (by omega)]
    exact sound.endNext
  · rw [(rest_split b p).2.2]
    exact .inr sound.lfree
  · rw [(rest_split b p).1]
    exact sound.ptr
  · rw [(rest_split b p).1, (rest_split b p).2.1]
    exact sound.small

end Split

theorem written_join (sound : h.Sound H) (hb : b ∈ H) {n : ℕ} (hn : n ∈ H) :
    (h.join b n).Written H := by
  have isNext := sound.next_mem hn
  have first := sound.written.modify (sound.apart hb) fun m => { m with next := (h.mem n).next }
  rw [insert_eq_of_mem hb] at first
  have second := first.modify (sound.apart isNext) fun m => { m with prev := b }
  rwa [insert_eq_of_mem isNext] at second

theorem join (sound : h.Sound H) (hb : b ∈ H) (notEnd : b ≠ h.heapEnd)
    (inside : (h.mem b).next ≠ h.heapEnd) :
    (h.join b (h.mem b).next).Sound (H \ {(h.mem b).next}) := by
  have isNext := sound.blocks.next_mem b hb notEnd
  have gap := sound.blocks.gap_le b hb notEnd
  have gapNext := sound.blocks.gap_le _ isNext inside
  have positive : 0 < sizeofStructMem := by decide
  refine ⟨?_, fun c hc => sound.aligned c hc.1, ?_, ?_, ?_, ?_, sound.ptr, sound.small,
    (sound.written_join hb isNext).mono sdiff_subset⟩
  · refine sound.blocks.join hb notEnd positive inside ?_ ?_ ?_ ?_
    · rw [next_join, if_pos rfl]
    · intro c _ other _
      rw [next_join, if_neg other]
    · intro _
      rw [prev_join, if_pos rfl]
    · intro c _ _ other _
      rw [prev_join, if_neg other]
  · rw [prev_join, if_neg (by omega)]
    exact sound.first
  · rw [heapEnd_join, used_join]
    exact sound.endUsed
  · rw [heapEnd_join, next_join, if_neg (Ne.symm notEnd)]
    exact sound.endNext
  · show (if h.lfree = (h.mem b).next then b else h.lfree) ∈ _
    by_cases isNext : h.lfree = (h.mem b).next
    · rw [if_pos isNext]
      exact ⟨hb, fun same => by have := mem_singleton_iff.mp same; omega⟩
    · rw [if_neg isNext]
      exact ⟨sound.lfree, isNext⟩

end Sound

end Heap

end Tm4cPilot.Rtt
