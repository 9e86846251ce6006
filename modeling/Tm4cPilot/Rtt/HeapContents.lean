import Tm4cPilot.Rtt.Arena

/-!
# `rt_realloc` keeps the data

The block that `rt_realloc` returns has the first bytes of the old one.  If it fails the old block
is as it was, and the other blocks are in both cases.
-/

namespace Tm4cPilot.Rtt

open Option List Run

namespace Arena

variable {a a' : Arena} {H H' : Set ℕ} {p : ℕ}

/-- There is a header in front of `p`, not the last one, and its block is used. -/
def InUse (a : Arena) (p : ℕ) : Prop :=
  ∃ b, a.Header b ∧ b ≠ a.heap.heapEnd ∧ (a.heap.mem b).used = true ∧ b + sizeofStructMem = p

/-- The block at `p` is used, with its size and bytes. -/
structure Same (a a' : Arena) (p : ℕ) : Prop where
  inUse : a'.InUse p
  capacity : a'.capacity p = a.capacity p
  data : ∀ i < a.capacity p, a'.heap.data (p + i) = a.heap.data (p + i)

/-- What `rt_realloc` for the block at `p` leaves. -/
structure Reallocated (a : Arena) (p newsize : ℕ) (a' : Arena) (r : Option ℕ) : Prop where
  inUse : ∀ q ∈ r, a'.InUse q
  room : ∀ q ∈ r, newsize ≤ a'.capacity q
  data : ∀ q ∈ r, ∀ i < min (a.capacity p) newsize, a'.heap.data (q + i) = a.heap.data (p + i)
  moved : ∀ q ∈ r, q ≠ p → ¬a'.InUse p
  failed : r = none → a.Same a' p
  others : ∀ o ∈ a.live, o ≠ p → a.Same a' o

/-- The used blocks of the heap are those that are live. -/
theorem Sound.inUse_iff (sound : a.Sound H) : a.InUse p ↔ p ∈ a.live := by
  rw [sound.owns.mem_iff]
  constructor
  · rintro ⟨b, header, notEnd, used, rfl⟩
    exact ⟨(b, (a.heap.mem b).next), ⟨(header_iff sound.heap).mp header, notEnd, used, rfl⟩, rfl⟩
  · rintro ⟨x, ⟨inH, notEnd, used, -⟩, rfl⟩
    exact ⟨x.1, (header_iff sound.heap).mpr inH, notEnd, used, rfl⟩

theorem Sound.same (sound : a.Sound H) (live : p ∈ a.live) : a.Same a p :=
  ⟨sound.inUse_iff.mpr live, rfl, fun _ _ => rfl⟩

theorem Same.of_effect {U : Set (ℕ × ℕ)} (sound : a.heap.Sound H)
    (effect : a.heap.Effect H a'.heap H' U) {x : ℕ × ℕ} (before : x ∈ a.heap.extents H)
    (after : x ∈ U) (inUse : a'.InUse (x.1 + sizeofStructMem)) :
    a.Same a' (x.1 + sizeofStructMem) := by
  have capacity := Sound.capacity_eq sound before
  refine ⟨inUse, ?_, fun i inside => ?_⟩
  · rw [capacity, Sound.capacity_eq effect.sound (effect.extents ▸ after)]
  · exact effect.keeps x ⟨before, after⟩ _ (by omega) (by omega)

theorem Sound.reallocated (sound : a.Sound H) (live : p ∈ a.live) {newsize : UInt32} {r : Option ℕ}
    (positive : 1 ≤ newsize.toNat) (small : newsize.toNat ≤ 2 ^ 31)
    (called : a.call (.realloc (some p) newsize) = some (a', r)) :
    a.Reallocated p newsize.toNat a' r := by
  obtain ⟨x, used, rfl, room⟩ := sound.exists_extent live
  have aligned := toNat_alignUp_of_le (show newsize.toNat ≤ 0xfffffffc by omega)
  have notZero : alignUp newsize ≠ 0 := fun zero => by
    rw [zero] at aligned
    have := aligned.1
    simp only [UInt32.reduceToNat] at this
    omega
  have valid : a.Valid (some (x.1 + sizeofStructMem)) := fun q isP => some.inj isP ▸ live
  obtain ⟨_, next, -, -, -⟩ := sound.call called
  rw [Arena.call, if_pos valid] at called
  obtain ⟨⟨h, r⟩, changed, isA⟩ := map_eq_some_iff.mp called
  cases isA
  obtain ⟨H', _, ⟨_, zero, _⟩ | ⟨rfl, _, rfl, rfl⟩ |
    ⟨y, rfl, fits, room', fresh, effect, copied⟩⟩ := sound.heap.realloc used room changed
  · exact absurd zero notZero
  · rw [if_pos ⟨rfl, notZero⟩]
    exact ⟨by simp, by simp, by simp, by simp, fun _ => sound.same live,
      fun o other _ => sound.same other⟩
  · rw [if_neg (fun both => some_ne_none _ both.1)] at next ⊢
    have usedY : y ∈ h.extents H' := effect.extents ▸ .inl rfl
    have capacity := Sound.capacity_eq
      (a := ⟨h, (y.1 + sizeofStructMem) :: a.live.erase (x.1 + sizeofStructMem)⟩) effect.sound usedY
    refine ⟨?_, ?_, ?_, ?_, by simp, fun o other ne => ?_⟩
    · rintro q isQ
      cases isQ
      exact next.inUse_iff.mpr mem_cons_self
    · rintro q isQ
      cases isQ
      show newsize.toNat ≤ Arena.capacity _ _
      rw [elim_some, toList_some, singleton_append, capacity]
      omega
    · rintro q isQ i inside
      cases isQ
      rw [capacity_eq sound.heap used] at inside
      exact copied i (by omega)
    · rintro q isQ ne inUse
      cases isQ
      rcases mem_cons.mp (next.inUse_iff.mp inUse) with same | old
      · exact ne same.symm
      · exact sound.owns.nodup.not_mem_erase old
    · obtain ⟨z, usedZ, rfl⟩ := (sound.owns.mem_iff o).mp other
      have notX : z ∉ ({x} : Set (ℕ × ℕ)) := fun same => ne (by rw [Set.mem_singleton_iff.mp same])
      exact Same.of_effect sound.heap effect usedZ (.inr ⟨usedZ, notX⟩)
        (next.inUse_iff.mpr (mem_cons_of_mem _ ((mem_erase_of_ne ne).mpr other)))

/-- In every run, `rt_realloc` for a live block returns, and keeps the data. -/
theorem reallocated_of_init {mem : ℕ → HeapMem} {data : ℕ → UInt8} {beginAddr endAddr : UInt32}
    {heap : Heap} (init : Heap.systemHeapInit mem data beginAddr endAddr = some heap)
    (calls : List Call) (reached : a ∈ run (lift step) (some ⟨heap, []⟩) calls)
    (live : p ∈ a.live) (newsize : UInt32) (positive : 1 ≤ newsize.toNat)
    (small : newsize.toNat ≤ 2 ^ 31) :
    ∃ a' r, a.call (.realloc (some p) newsize) = some (a', r) ∧
      a.Reallocated p newsize.toNat a' r := by
  obtain ⟨H, sound, large⟩ := sound_of_run init reached
  have valid : a.Valid (some p) := fun q isP => some.inj isP ▸ live
  obtain ⟨⟨h, r⟩, changed⟩ := isSome_iff_exists.mp
    (sound.heap.realloc_isSome (large (ne_nil_of_mem live)) (some p) newsize)
  have called : a.call (.realloc (some p) newsize) =
      some (⟨h, if r = none ∧ alignUp newsize ≠ 0 then a.live
        else r.toList ++ a.live.erase p⟩, r) := by
    rw [Arena.call, if_pos valid, changed, map_some]
    rfl
  exact ⟨_, r, called, sound.reallocated live positive small called⟩

/-- A block is moved with the byte that was written into it. -/
theorem reallocated_of_init_moved : ∃ a a' : Arena, ∃ r,
    a ∈ run (lift step) (some ⟨small, []⟩) [.malloc 20, .store 12 3 7, .malloc 20] ∧
    a.heap.data 15 = 7 ∧ a.call (.realloc (some 12) 40) = some (a', r) ∧ r = some 76 ∧
    a.Reallocated 12 40 a' r := by
  have found : ((run (lift step) (some ⟨small, []⟩)
      [.malloc 20, .store 12 3 7, .malloc 20]).map fun a => (a.live, a.heap.data 15,
        (a.call (.realloc (some 12) 40)).map Prod.snd)) = some ([44, 12], 7, some (some 76)) := by
    decide +kernel
  obtain ⟨a, reached, values⟩ := map_eq_some_iff.mp found
  simp only [Prod.mk.injEq] at values
  obtain ⟨live, byte, result⟩ := values
  obtain ⟨a', r, called, kept⟩ := reallocated_of_init (p := 12) systemHeapInit_small _ reached
    (by rw [live]; decide) 40 (by decide) (by decide)
  rw [called] at result
  exact ⟨a, a', r, reached, byte, called, some.inj result, kept⟩

end Arena

end Tm4cPilot.Rtt
