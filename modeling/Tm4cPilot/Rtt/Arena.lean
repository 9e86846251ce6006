import Tm4cPilot.Lib.Run
import Tm4cPilot.Rtt.HeapCalls

/-!
# Runs of the heap

`Arena` is the heap with the addresses that have been handed out and not given back.  Between the
calls the owners write into their blocks.
-/

namespace Tm4cPilot.Rtt

open Heap Option Function Run

/-- The heap and the blocks handed out and not given back. -/
structure Arena where
  heap : Heap
  live : List ℕ

/-- The calls, and writes of the owners. -/
inductive Arena.Call where
  | malloc (size : UInt32)
  | calloc (count size : UInt32)
  | realloc (rmem : Option ℕ) (newsize : UInt32)
  | free (rmem : Option ℕ)
  | store (p i : ℕ) (byte : UInt8)
  deriving DecidableEq, Repr

namespace Arena

variable (a : Arena)

/-- The bytes of a block. -/
def capacity (p : ℕ) : ℕ := a.heap.room (p - sizeofStructMem)

/-- An argument is a live block. -/
def Valid (rmem : Option ℕ) : Prop := ∀ p ∈ rmem, p ∈ a.live
deriving Decidable

/-- A block becomes live. -/
def hand (result : Heap × Option ℕ) : Arena × Option ℕ :=
  (⟨result.1, result.2.toList ++ a.live⟩, result.2)

/-- What a call does, and its result. -/
def call : Call → Option (Arena × Option ℕ)
  | .malloc size => (a.heap.malloc size).map a.hand
  | .calloc count size => (a.heap.calloc count size).map a.hand
  | .realloc rmem newsize =>
    if a.Valid rmem then
      (a.heap.realloc rmem newsize).map fun result =>
        (⟨result.1, if result.2 = none ∧ alignUp newsize ≠ 0 then a.live
          else result.2.toList ++ rmem.elim a.live a.live.erase⟩, result.2)
    else none
  | .free rmem =>
    if a.Valid rmem then some (⟨a.heap.free rmem, rmem.elim a.live a.live.erase⟩, none) else none
  | .store p i byte =>
    if p ∈ a.live ∧ i < a.capacity p then
      some (⟨{ a.heap with data := update a.heap.data (p + i) byte }, a.live⟩, none)
    else none

/-- The arena after a call. -/
def step (call : Call) : Option Arena := (a.call call).map Prod.fst

/-- An offset in the list of headers. -/
def Header (b : ℕ) : Prop := ∃ k, (fun b => (a.heap.mem b).next)^[k] 0 = b

/-- `size` bytes at `p` are in the heap, aligned, and apart from other blocks and headers. -/
structure Handed (p size : ℕ) : Prop where
  aligned : 4 ∣ a.heap.heapPtr + p
  inside : p + size ≤ a.heap.heapEnd
  blocks : ∀ q ∈ a.live.erase p, p + size ≤ q ∨ q + a.capacity q ≤ p
  headers : ∀ b, a.Header b → p + size ≤ b ∨ b + sizeofStructMem ≤ p

end Arena

/-! ## The live blocks -/

/-- The live blocks are the used ones. -/
structure Owns (U : Set (ℕ × ℕ)) (live : List ℕ) : Prop where
  nodup : live.Nodup
  mem_iff : ∀ q, q ∈ live ↔ ∃ x ∈ U, x.1 + sizeofStructMem = q
  room : ∀ x ∈ U, x.1 + sizeofStructMem < x.2
  unique : ∀ x ∈ U, ∀ y ∈ U, x.1 = y.1 → x = y

namespace Owns

variable {U : Set (ℕ × ℕ)} {live : List ℕ}

theorem empty : Owns ∅ [] := by
  refine ⟨.nil, fun q => ?_, fun x absurd => absurd.elim, fun x absurd => absurd.elim⟩
  simp

theorem insert (owns : Owns U live) {y : ℕ × ℕ} (fresh : ∀ x ∈ U, x.1 ≠ y.1)
    (room : y.1 + sizeofStructMem < y.2) : Owns (insert y U) ((y.1 + sizeofStructMem) :: live) := by
  refine ⟨List.nodup_cons.mpr ⟨fun old => ?_, owns.nodup⟩, fun q => ?_, ?_, ?_⟩
  · obtain ⟨x, hx, same⟩ := (owns.mem_iff _).mp old
    exact fresh x hx (by omega)
  · simp only [List.mem_cons, owns.mem_iff, Set.mem_insert_iff, exists_eq_or_imp]
    exact or_congr_left eq_comm
  · rintro x (rfl | old)
    · exact room
    · exact owns.room x old
  · rintro x (rfl | oldX) z (rfl | oldZ) same
    · rfl
    · exact absurd same.symm (fresh z oldZ)
    · exact absurd same (fresh x oldX)
    · exact owns.unique x oldX z oldZ same

theorem erase (owns : Owns U live) {x : ℕ × ℕ} (hx : x ∈ U) :
    Owns (U \ {x}) (live.erase (x.1 + sizeofStructMem)) := by
  refine ⟨owns.nodup.erase _, fun q => ?_, fun y hy => owns.room y hy.1,
    fun y hy z hz => owns.unique y hy.1 z hz.1⟩
  rw [owns.nodup.mem_erase_iff, owns.mem_iff]
  constructor
  · rintro ⟨other, y, hy, rfl⟩
    exact ⟨y, ⟨hy, fun same => other (congrArg (·.1 + sizeofStructMem) same)⟩, rfl⟩
  · rintro ⟨y, ⟨hy, other⟩, rfl⟩
    refine ⟨fun same => other (owns.unique y hy x hx (by omega)), y, hy, rfl⟩

end Owns

namespace Arena

variable {a a' : Arena} {H : Set ℕ} {p : ℕ}

/-- The heap is sound, and its used blocks are the live ones. -/
structure Sound (a : Arena) (H : Set ℕ) : Prop where
  heap : a.heap.Sound H
  owns : Owns (a.heap.extents H) a.live

/-- A block is cut only if no free block ends up below the lowest. -/
def Allowed (a : Arena) : Call → Prop
  | .realloc (some p) newsize => a.heap.Cuts p newsize → a.heap.Near (p - sizeofStructMem)
  | _ => True

instance (a : Arena) : (c : Call) → Decidable (a.Allowed c)
  | .realloc (some _) _ => inferInstanceAs (Decidable (_ → _))
  | .realloc none _ | .malloc _ | .calloc .. | .free _ | .store .. => .isTrue trivial

/-- What a call keeps. -/
structure Next (a : Arena) (H : Set ℕ) (c : Call) (a' : Arena) (H' : Set ℕ) : Prop where
  sound : a'.Sound H'
  size : a'.heap.memSizeAligned = a.heap.memSizeAligned
  low : a.Allowed c → a.heap.Low H → a'.heap.Low H'
  large : a.live = [] → a'.live ≠ [] → minSize ≤ a'.heap.memSizeAligned

namespace Sound

theorem exists_extent (sound : a.Sound H) (live : p ∈ a.live) :
    ∃ x ∈ a.heap.extents H, x.1 + sizeofStructMem = p ∧ x.1 + sizeofStructMem < x.2 := by
  obtain ⟨x, used, isP⟩ := (sound.owns.mem_iff p).mp live
  exact ⟨x, used, isP, sound.owns.room x used⟩

theorem capacity_eq (sound : a.heap.Sound H) {x : ℕ × ℕ} (used : x ∈ a.heap.extents H) :
    a.capacity (x.1 + sizeofStructMem) = x.2 - (x.1 + sizeofStructMem) := by
  rw [capacity, Nat.add_sub_cancel, sound.room_eq used.1 used.2.1, used.2.2.2]

theorem extent_le (sound : a.heap.Sound H) {x : ℕ × ℕ} (used : x ∈ a.heap.extents H) :
    x.2 ≤ a.heap.heapEnd := by
  rw [used.2.2.2]
  exact sound.next_le used.1 used.2.1

variable {c : Call} {h : Heap} {r : Option ℕ}

section

variable (sound : a.Sound H)
include sound

theorem hand {size : ℕ} (large : minSize ≤ size)
    (called : (r = none ∧ h = a.heap) ∨ ∃ H' b e, r = some (b + sizeofStructMem) ∧
      b + sizeofStructMem + size ≤ e ∧ (∀ y ∈ a.heap.extents H, y.1 ≠ b) ∧
      a.heap.Effect H h H' (insert (b, e) (a.heap.extents H)) ∧ (a.heap.Low H → h.Low H')) :
    ∃ H', a.Next H c (a.hand (h, r)).1 H' := by
  rcases called with ⟨rfl, rfl⟩ | ⟨H', b, e, rfl, room, fresh, effect, low⟩
  · exact ⟨H, sound, rfl, fun _ => id, fun empty absurd => absurd.elim empty⟩
  · have used : (b, e) ∈ h.extents H' := effect.extents ▸ .inl rfl
    have positive : 0 < minSize := by decide
    refine ⟨H', ⟨effect.sound, ?_⟩, effect.size, fun _ => low, fun _ _ => ?_⟩
    · show Owns (h.extents H') _
      rw [effect.extents]
      exact sound.owns.insert fresh (by dsimp only; omega)
    · have le := extent_le (a := (a.hand (h, some (b + sizeofStructMem))).1) effect.sound used
      show minSize ≤ h.memSizeAligned
      have isEnd : h.heapEnd = h.memSizeAligned + sizeofStructMem := rfl
      have le : e ≤ h.heapEnd := le
      omega

theorem free {rmem : Option ℕ} (valid : a.Valid rmem) :
    ∃ H', a.Next H (.free rmem) ⟨a.heap.free rmem, rmem.elim a.live a.live.erase⟩ H' := by
  cases rmem with
  | none => exact ⟨H, sound, rfl, fun _ => id, fun empty absurd => absurd.elim empty⟩
  | some rmem =>
    obtain ⟨x, used, rfl, room⟩ := sound.exists_extent (valid rmem rfl)
    obtain ⟨H', freed, low⟩ := sound.heap.free used room
    refine ⟨H', ⟨freed.sound, ?_⟩, freed.size, fun _ => low,
      fun empty => absurd (valid _ rfl) (by rw [empty]; exact List.not_mem_nil)⟩
    show Owns (extents _ H') _
    rw [freed.extents]
    exact sound.owns.erase used

theorem realloc_none {newsize : UInt32} (called : a.heap.realloc none newsize = some (h, r)) :
    ∃ H', a.Next H (.realloc none newsize)
      ⟨h, if r = none ∧ alignUp newsize ≠ 0 then a.live else r.toList ++ a.live⟩ H' := by
  have added : (if r = none ∧ alignUp newsize ≠ 0 then a.live else r.toList ++ a.live) =
      r.toList ++ a.live := by
    cases r <;> simp
  rw [added]
  rw [Heap.realloc] at called
  by_cases large : a.heap.memSizeAligned < (alignUp newsize).toNat
  · rw [if_pos large] at called
    cases called
    exact ⟨H, sound, rfl, fun _ => id, fun empty absurd => absurd.elim empty⟩
  rw [if_neg large] at called
  by_cases zero : alignUp newsize = 0
  · rw [if_pos zero] at called
    cases called
    exact ⟨H, sound, rfl, fun _ => id, fun empty absurd => absurd.elim empty⟩
  rw [if_neg zero] at called
  exact sound.hand (minSize_le_granted _) (sound.heap.malloc called)

theorem realloc_some (live : p ∈ a.live) {newsize : UInt32}
    (called : a.heap.realloc (some p) newsize = some (h, r)) :
    ∃ H', a.Next H (.realloc (some p) newsize) ⟨h, if r = none ∧ alignUp newsize ≠ 0 then a.live
      else r.toList ++ a.live.erase p⟩ H' := by
  obtain ⟨x, used, rfl, room⟩ := sound.exists_extent live
  obtain ⟨H', low, changed⟩ := sound.heap.realloc used room called
  have lows : a.Allowed (.realloc (some (x.1 + sizeofStructMem)) newsize) →
      a.heap.Low H → h.Low H' := by
    intro allowed lowH
    exact low lowH allowed
  have occupied {P : Prop} : a.live = [] → P := fun empty =>
    absurd live (by rw [empty]; exact List.not_mem_nil)
  rcases changed with ⟨rfl, zero, freed⟩ | ⟨rfl, notZero, rfl, rfl⟩ |
    ⟨y, rfl, _, room', fresh, changed, _⟩
  · refine ⟨H', ⟨freed.sound, ?_⟩, freed.size, lows, occupied⟩
    show Owns (h.extents H') _
    rw [freed.extents, if_neg (fun both => both.2 zero)]
    exact sound.owns.erase used
  · rw [if_pos ⟨rfl, notZero⟩]
    exact ⟨H', sound, rfl, lows, occupied⟩
  · refine ⟨H', ⟨changed.sound, ?_⟩, changed.size, lows, occupied⟩
    show Owns (h.extents H') _
    rw [changed.extents, if_neg (fun both => some_ne_none _ both.1)]
    exact (sound.owns.erase used).insert fresh room'

theorem store (live : p ∈ a.live) {i : ℕ} (inside : i < a.capacity p) (byte : UInt8) : Arena.Sound
      ⟨{ a.heap with data := update a.heap.data (p + i) byte }, a.live⟩ H := by
  obtain ⟨x, used, rfl, room⟩ := sound.exists_extent live
  rw [capacity_eq sound.heap used] at inside
  refine ⟨sound.heap.with_data used fun b outside => update_of_ne ?_ .., sound.owns⟩
  omega

theorem call (called : a.call c = some (a', r)) : ∃ H', a.Next H c a' H' := by
  cases c with
  | malloc size =>
    obtain ⟨⟨h, r⟩, allocated, isA⟩ := map_eq_some_iff.mp called
    cases isA
    exact sound.hand (minSize_le_granted _) (sound.heap.malloc allocated)
  | calloc count size =>
    obtain ⟨⟨h, r⟩, allocated, isA⟩ := map_eq_some_iff.mp called
    cases isA
    exact sound.hand (minSize_le_granted _) (sound.heap.calloc allocated)
  | realloc rmem newsize =>
    rw [Arena.call] at called
    split at called
    next valid =>
      obtain ⟨⟨h, r⟩, changed, isA⟩ := map_eq_some_iff.mp called
      cases isA
      cases rmem with
      | none => exact sound.realloc_none changed
      | some p => exact sound.realloc_some (valid p rfl) changed
    next => cases called
  | free rmem =>
    rw [Arena.call] at called
    split at called
    next valid =>
      cases called
      exact sound.free valid
    next => cases called
  | store p i byte =>
    rw [Arena.call] at called
    split at called
    next valid =>
      cases called
      exact ⟨H, sound.store valid.1 valid.2 byte, rfl, fun _ => id,
        fun empty absurd => absurd.elim empty⟩
    next => cases called

theorem step (stepped : a.step c = some a') : ∃ H', a.Next H c a' H' := by
  obtain ⟨⟨_, r⟩, called, rfl⟩ := map_eq_some_iff.mp stepped
  exact sound.call called

end

end Sound

section

variable {mem : ℕ → HeapMem} {data : ℕ → UInt8} {beginAddr endAddr : UInt32} {heap : Heap}
  (init : systemHeapInit mem data beginAddr endAddr = some heap)

include init

theorem sound_of_init : Arena.Sound ⟨heap, []⟩ {0, heap.heapEnd} := by
  obtain ⟨sound, empty, _⟩ := sound_systemHeapInit init
  refine ⟨sound, ?_⟩
  show Owns (heap.extents _) _
  rw [empty]
  exact Owns.empty

theorem sound_of_run {calls : List Call}
    (reached : a ∈ run (lift step) (some ⟨heap, []⟩) calls) :
    ∃ H, a.Sound H ∧ (a.live ≠ [] → minSize ≤ a.heap.memSizeAligned) := by
  refine lift_invariant
    (I := fun a : Arena => ∃ H, a.Sound H ∧ (a.live ≠ [] → minSize ≤ a.heap.memSizeAligned))
    (fun a c a' ⟨H, sound, large⟩ stepped => ?_) ⟨_, sound_of_init init, absurd rfl⟩ calls a reached
  obtain ⟨H', next⟩ := sound.step stepped
  refine ⟨H', next.sound, fun occupied => ?_⟩
  by_cases empty : a.live = []
  · exact next.large empty occupied
  · rw [next.size]
    exact large empty

end

/-! ## What is handed out -/

theorem Sound.header_iff (sound : a.heap.Sound H) {b : ℕ} : a.Header b ↔ b ∈ H :=
  (sound.blocks.mem_iff_iterate (by decide) sound.endNext).symm

theorem Sound.handed (sound : a.Sound H) {x : ℕ × ℕ} (used : x ∈ a.heap.extents H) {size : ℕ}
    (fits : x.1 + sizeofStructMem + size ≤ x.2) : a.Handed (x.1 + sizeofStructMem) size := by
  refine ⟨?_, fits.trans (extent_le sound.heap used), fun q hq => ?_, fun c header => ?_⟩
  · exact sound.heap.ptr.add ((sound.heap.aligned _ used.1).add (by decide))
  · obtain ⟨other, live⟩ := sound.owns.nodup.mem_erase_iff.mp hq
    obtain ⟨y, usedY, rfl⟩ := (sound.owns.mem_iff q).mp live
    have room := sound.owns.room y usedY
    rw [capacity_eq sound.heap usedY]
    have apart := sound.heap.extents_apart used usedY.1 (fun same => other (by rw [same]))
    rw [← usedY.2.2.2] at apart
    omega
  · have hc := (header_iff sound.heap).mp header
    by_cases same : c = x.1
    · rw [same]
      exact .inr le_rfl
    · rcases sound.heap.blocks.gap_apart used.1 hc same with before | behind
      · exact .inr (before.trans (Nat.le_add_right ..))
      · have next := sound.heap.blocks.apart used.1 hc (by omega)
        rw [← used.2.2.2] at next
        exact .inl (fits.trans next)

theorem Handed.le {size : ℕ} (handed : a.Handed p size) (sound : a.heap.Sound H) :
    size ≤ 0xfffffffc := by
  have inside := handed.inside
  have small := sound.small
  rw [heapEnd, sizeofStructMem] at inside
  omega

/-- The bytes that are asked for. -/
def Call.bytes : Call → Option ℕ
  | .malloc size => some size.toNat
  | .calloc count size => some (count.toNat * size.toNat)
  | .realloc .. | .free _ | .store .. => none

theorem Sound.handed_hand (sound : a.Sound H) {size : UInt32} {h : Heap}
    (small : size.toNat ≤ 0xfffffffc)
    (called : (some p = none ∧ h = a.heap) ∨ ∃ H' b e, some p = some (b + sizeofStructMem) ∧
    b + sizeofStructMem + granted size ≤ e ∧ (∀ y ∈ a.heap.extents H, y.1 ≠ b) ∧
    a.heap.Effect H h H' (insert (b, e) (a.heap.extents H)) ∧ (a.heap.Low H → h.Low H')) :
    Arena.Handed ⟨h, p :: a.live⟩ p size.toNat := by
  rcases called with ⟨absurd, _⟩ | ⟨H', b, e, isP, room, fresh, effect, _⟩
  · cases absurd
  obtain rfl := some.inj isP
  have positive := granted_pos size
  have enough : size.toNat ≤ granted size :=
    (toNat_alignUp_of_le small).1.trans (le_max_left ..)
  have after : Arena.Sound ⟨h, (b + sizeofStructMem) :: a.live⟩ H' := by
    refine ⟨effect.sound, ?_⟩
    show Owns (h.extents H') _
    rw [effect.extents]
    exact sound.owns.insert fresh (by dsimp only; omega)
  have used : (b, e) ∈ h.extents H' := effect.extents ▸ .inl rfl
  exact after.handed used (by dsimp only; omega)

/-- What `rt_malloc` and `rt_calloc` hand out is aligned, in the heap, large enough and apart from
the rest, exactly if at most 0xfffffffc bytes are asked for. -/
theorem handed_iff_of_init {mem : ℕ → HeapMem} {data : ℕ → UInt8} {beginAddr endAddr : UInt32}
    {heap : Heap} (init : Heap.systemHeapInit mem data beginAddr endAddr = some heap)
    (calls : List Call) (reached : a ∈ run (lift step) (some ⟨heap, []⟩) calls) {c : Call}
    {bytes : ℕ} (asked : c.bytes = some bytes) (called : a.call c = some (a', some p)) :
    a'.Handed p bytes ↔ bytes ≤ 0xfffffffc := by
  obtain ⟨H, sound, _⟩ := sound_of_run init reached
  obtain ⟨H', next⟩ := sound.call called
  refine ⟨fun handed => handed.le next.sound.heap, fun small => ?_⟩
  cases c with
  | malloc size =>
    cases asked
    obtain ⟨⟨h, r⟩, allocated, isA⟩ := map_eq_some_iff.mp called
    cases isA
    exact sound.handed_hand small (sound.heap.malloc allocated)
  | calloc count size =>
    cases asked
    obtain ⟨⟨h, r⟩, allocated, isA⟩ := map_eq_some_iff.mp called
    have product : (count * size).toNat = count.toNat * size.toNat := by
      rw [UInt32.toNat_mul]
      exact Nat.mod_eq_of_lt (by omega)
    cases isA
    rw [← product] at small ⊢
    exact sound.handed_hand small (sound.heap.calloc allocated)
  | realloc => cases asked
  | free => cases asked
  | store => cases asked

def small : Heap := Heap.prepare
  { heapPtr := 0x20000000, memSizeAligned := 0xfe8, mem := fun _ => ⟨false, 0, 0⟩,
    data := fun _ => 0, lfree := 0 }

theorem systemHeapInit_small :
    systemHeapInit (fun _ => ⟨false, 0, 0⟩) (fun _ => 0) 0x20000000 0x20001000 = some small := by
  have aligned : alignUp 0x20000000 = 0x20000000 ∧ alignDown 0x20001000 = 0x20001000 := by
    decide +kernel
  rw [systemHeapInit, aligned.1, aligned.2]
  rfl

/-- A block that was given back is split and used again. -/
theorem handed_iff_of_init_reused : ∃ a a' : Arena,
    a ∈ run (lift step) (some ⟨small, []⟩)
      [.malloc 100, .calloc 5 4, .free (some 12), .realloc (some 124) 40] ∧
    a.call (.malloc 50) = some (a', some 64) ∧ a'.Handed 64 50 := by
  have found : ((run (lift step) (some ⟨small, []⟩)
      [.malloc 100, .calloc 5 4, .free (some 12), .realloc (some 124) 40]).bind fun a =>
        a.call (.malloc 50)).map Prod.snd = some (some 64) := by
    decide +kernel
  obtain ⟨⟨a', p⟩, called, isP⟩ := map_eq_some_iff.mp found
  obtain ⟨a, reached, called⟩ := bind_eq_some_iff.mp called
  cases isP
  exact ⟨a, a', reached, called,
    (handed_iff_of_init systemHeapInit_small _ reached rfl called).mpr (by decide)⟩

/-- A size rounded up to 0, and a product of more than 32 bits. -/
theorem handed_too_little :
    (∃ a p, Arena.call ⟨small, []⟩ (.malloc 0xffffffff) = some (a, some p) ∧
      a.capacity p = 12 ∧ ¬a.Handed p 0xffffffff) ∧
    ∃ a p, Arena.call ⟨small, []⟩ (.calloc 0x10000001 0x10) = some (a, some p) ∧
      a.capacity p = 16 ∧ ¬a.Handed p (0x10000001 * 0x10) := by
  have first : (Arena.call ⟨small, []⟩ (.malloc 0xffffffff)).map
      (fun r => (r.2, r.1.heap.heapEnd, r.1.capacity 12)) = some (some 12, 0xff4, 12) := by
    decide +kernel
  have second : (Arena.call ⟨small, []⟩ (.calloc 0x10000001 0x10)).map
      (fun r => (r.2, r.1.heap.heapEnd, r.1.capacity 12)) = some (some 12, 0xff4, 16) := by
    decide +kernel
  obtain ⟨⟨a, p⟩, called, values⟩ := map_eq_some_iff.mp first
  obtain ⟨⟨a', p'⟩, called', values'⟩ := map_eq_some_iff.mp second
  simp only [Prod.mk.injEq] at values values'
  obtain ⟨rfl, isEnd, room⟩ := values
  obtain ⟨rfl, isEnd', room'⟩ := values'
  refine ⟨⟨a, 12, called, room, fun handed => ?_⟩, a', 12, called', room', fun handed => ?_⟩
  · have inside := handed.inside
    omega
  · have inside := handed.inside
    omega

end Arena

end Tm4cPilot.Rtt
