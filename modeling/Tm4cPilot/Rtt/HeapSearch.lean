import Tm4cPilot.Rtt.Arena

/-!
# When `rt_malloc` finds a block

The search begins at `lfree` and ends before `mem_size_aligned - size`.  It finds a block if there
is one, but for a block that ends with the heap and has exactly the bytes that are needed.
-/

namespace Tm4cPilot.Rtt

open Option Run

namespace Arena

variable {a : Arena} {H : Set ℕ}

/-- A free block with at least `n` bytes. -/
def Free (a : Arena) (b n : ℕ) : Prop :=
  a.Header b ∧ b ≠ a.heap.heapEnd ∧ (a.heap.mem b).used = false ∧ n ≤ a.heap.room b

/-- The bytes a block needs. -/
def need (size : UInt32) : ℕ := max ((size.toNat + 3) / 4 * 4) minSize

/-- If `rt_malloc` fails, there is no block. -/
def Finds (a : Arena) (size : UInt32) : Prop :=
  ∀ a', a.call (.malloc size) = some (a', none) → ∀ b, ¬a.Free b (need size)

theorem granted_eq_need {size : UInt32} (small : need size < 2 ^ 32) :
    Heap.granted size = need size := by
  rw [need] at small
  rw [Heap.granted, need, toNat_alignUp]
  omega

namespace Sound

variable {b : ℕ} {size : UInt32}

theorem free_le (sound : a.heap.Sound H) {n : ℕ} (free : a.Free b n) :
    b ∈ H ∧ b + n ≤ a.heap.memSizeAligned := by
  obtain ⟨header, inside, _, room⟩ := free
  have hb := (header_iff sound).mp header
  have gap := sound.blocks.gap_le b hb inside
  have next := sound.next_le hb inside
  rw [sound.room_eq hb inside] at room
  rw [Heap.heapEnd] at next
  exact ⟨hb, by omega⟩

theorem free_missed (sound : a.heap.Sound H) (low : a.heap.Low H) (positive : size ≠ 0)
    {a' : Arena} (failed : a.call (.malloc size) = some (a', none))
    (free : a.Free b (need size)) : b + need size = a.heap.memSizeAligned := by
  obtain ⟨hb, le⟩ := free_le sound free
  have small : need size < 2 ^ 32 := by
    have := sound.small
    omega
  have granted := granted_eq_need small
  obtain ⟨⟨h, r⟩, allocated, isA⟩ := map_eq_some_iff.mp failed
  obtain rfl : r = none := congrArg Prod.snd isA
  rcases Heap.malloc_cases allocated with ⟨_, _, zero | large | missed⟩ | ⟨c, searched, taken⟩
  · exact absurd zero positive
  · have : (alignUp size).toNat ≤ Heap.granted size := le_max_left ..
    omega
  · have notBefore := sound.search_none sound.lfree missed hb (low b hb free.2.1 free.2.2.1)
    rw [granted, subWrap_of_le (by omega) (by have := sound.small; omega)] at notBefore
    by_contra other
    exact notBefore (by omega) free.2.2
  · obtain ⟨hc, notEnd, isFree, fits, _⟩ := sound.search sound.lfree searched
    obtain ⟨_, _, absurd, _⟩ :=
      sound.grant hc notEnd isFree (Heap.four_dvd_granted size) fits taken
    cases absurd

theorem malloc_fails (sound : a.heap.Sound H) (large : minSize ≤ a.heap.memSizeAligned)
    (exact : b + need size = a.heap.memSizeAligned)
    (alone : ∀ c, c ≠ b → ¬a.Free c (need size)) :
    ∃ a', a.call (.malloc size) = some (a', none) := by
  have small : need size < 2 ^ 32 := by
    have := sound.small
    omega
  obtain ⟨⟨h, r⟩, allocated⟩ := isSome_iff_exists.mp (sound.malloc_isSome large size)
  rcases Heap.malloc_cases allocated with ⟨rfl, _, _⟩ | ⟨c, searched, _⟩
  · exact ⟨_, map_eq_some_iff.mpr ⟨_, allocated, rfl⟩⟩
  · obtain ⟨hc, notEnd, isFree, fits, before⟩ := sound.search sound.lfree searched
    rw [granted_eq_need small] at fits before
    rw [subWrap_of_le (by omega) (by have := sound.small; omega)] at before
    refine absurd ⟨(header_iff sound).mpr hc, notEnd, isFree, ?_⟩ (alone c (by omega))
    rw [sound.room_eq hc notEnd]
    omega

theorem finds_iff (sound : a.heap.Sound H) (low : a.heap.Low H)
    (large : minSize ≤ a.heap.memSizeAligned) (positive : size ≠ 0) :
    a.Finds size ↔ ∀ b, a.Free b (need size) → b + need size = a.heap.memSizeAligned →
      ∃ c, c ≠ b ∧ a.Free c (need size) := by
  constructor
  · intro finds b free exact
    by_contra none
    obtain ⟨a', failed⟩ := malloc_fails sound large exact fun c other found => none ⟨c, other, found⟩
    exact finds a' failed b free
  · intro another a' failed b free
    have last := free_missed sound low positive failed free
    obtain ⟨c, other, free'⟩ := another b free last
    have last' := free_missed sound low positive failed free'
    omega

end Sound

/-- If no free block is below the lowest, `rt_malloc` finds a block if there is one, unless it ends
with the heap and just suffices. -/
theorem finds_iff_of_allowed {mem : ℕ → HeapMem} {data : ℕ → UInt8} {beginAddr endAddr : UInt32}
    {heap : Heap} (init : Heap.systemHeapInit mem data beginAddr endAddr = some heap)
    (large : beginAddr.toNat + 64 ≤ endAddr.toNat) {calls : List Call}
    (allowed : Run.Along (lift step) (fun o c => ∀ a ∈ o, a.Allowed c) (some ⟨heap, []⟩) calls)
    (reached : a ∈ run (lift step) (some ⟨heap, []⟩) calls) {size : UInt32}
    (positive : 1 ≤ size.toNat) :
    a.Finds size ↔ ∀ b, a.Free b (need size) → b + need size = a.heap.memSizeAligned →
      ∃ c, c ≠ b ∧ a.Free c (need size) := by
  obtain ⟨_, _, lfree, le⟩ := Heap.sound_systemHeapInit init
  obtain ⟨H, sound, low, size⟩ := allowed.lift_invariant
    (I := fun a : Arena => ∃ H, a.Sound H ∧ a.heap.Low H ∧
      a.heap.memSizeAligned = heap.memSizeAligned)
    (fun a c a' allowed ⟨H, sound, low, size⟩ stepped => by
      obtain ⟨H', next⟩ := sound.step stepped
      exact ⟨H', next.sound, next.low allowed low, next.size.trans size⟩)
    ⟨_, sound_of_init init, fun b _ _ _ => lfree ▸ Nat.zero_le b, rfl⟩ a reached
  refine Sound.finds_iff sound.heap low ?_ fun zero => ?_
  · rw [size, minSize]
    omega
  · rw [zero] at positive
    exact absurd positive (by decide)

/-- A block is cut, and the rest of it is found. -/
theorem finds_iff_of_allowed_cut : ∃ a : Arena,
    a ∈ run (lift step) (some ⟨small, []⟩) [.malloc 100, .realloc (some 12) 20] ∧
    a.Finds 50 := by
  have found : ((run (lift step) (some ⟨small, []⟩)
      [.malloc 100, .realloc (some 12) 20]).map fun a => ((a.heap.mem 0).next, (a.heap.mem 32).next,
        (a.heap.mem 0xff4).next, a.heap.memSizeAligned)) = some (32, 0xff4, 0xff4, 0xfe8) := by
    decide +kernel
  obtain ⟨a, reached, values⟩ := map_eq_some_iff.mp found
  simp only [Prod.mk.injEq] at values
  obtain ⟨next0, next1, next2, size⟩ := values
  refine ⟨a, reached, (finds_iff_of_allowed systemHeapInit_small (by decide) (by decide +kernel) reached
    (by decide)).mpr fun b free exact => ?_⟩
  have headers (k : ℕ) : (fun b => (a.heap.mem b).next)^[k] 0 ∈ [0, 32, 0xff4] := by
    induction k with
    | zero => simp
    | succ k ih =>
      rw [Function.iterate_succ_apply']
      simp only [List.mem_cons, List.not_mem_nil, or_false] at ih ⊢
      rcases ih with here | here | here <;> rw [here] <;> omega
  obtain ⟨k, isB⟩ := free.1
  have header := headers k
  have needs : need 50 = 52 := by decide
  simp only [isB, List.mem_cons, List.not_mem_nil, or_false] at header
  omega

/-- A block of the whole heap is not found, nor one cut off below the lowest free block. -/
theorem free_not_found :
    (¬Arena.Finds ⟨small, []⟩ 0xfe8) ∧ ∃ a : Arena,
      a ∈ run (lift step) (some ⟨small, []⟩) [.malloc 100, .malloc 3956, .realloc (some 12) 20] ∧
      a.Free 32 68 ∧ ¬a.Finds 40 := by
  constructor
  · intro finds
    have failed : (Arena.call ⟨small, []⟩ (.malloc 0xfe8)).map Prod.snd = some none := by
      decide +kernel
    obtain ⟨⟨a', r⟩, called, rfl⟩ := map_eq_some_iff.mp failed
    exact finds a' called 0 ⟨⟨0, rfl⟩, by decide +kernel, by decide +kernel, by decide +kernel⟩
  · have found : ((run (lift step) (some ⟨small, []⟩)
        [.malloc 100, .malloc 3956, .realloc (some 12) 20]).map fun a =>
          ((a.heap.mem 0).next, a.heap.heapEnd, (a.heap.mem 32).used, a.heap.room 32,
            (a.call (.malloc 40)).map Prod.snd)) = some (32, 0xff4, false, 68, some none) := by
      decide +kernel
    obtain ⟨a, reached, values⟩ := map_eq_some_iff.mp found
    simp only [Prod.mk.injEq] at values
    obtain ⟨next, isEnd, unused, room, failed⟩ := values
    have free (n : ℕ) (le : n ≤ 68) : a.Free 32 n :=
      ⟨⟨1, next⟩, by rw [isEnd]; decide, unused, by rw [room]; exact le⟩
    refine ⟨a, reached, free 68 le_rfl, fun finds => ?_⟩
    obtain ⟨⟨a', r⟩, called, rfl⟩ := map_eq_some_iff.mp failed
    exact finds a' called 32 (free _ (by decide))

end Arena

end Tm4cPilot.Rtt
