import Mathlib.Tactic

/-!
# A region that is cut in blocks

A region is cut in blocks, each with a header of `gap` bytes that has the positions of the next
header and of the one before. `Blocks` says that the headers are those of a set.
-/

/-- The headers of a region, with the pointers to the next ones. -/
structure Headers (gap last : ℕ) (next : ℕ → ℕ) (headers : Set ℕ) : Prop where
  first : 0 ∈ headers
  last_mem : last ∈ headers
  le_last : ∀ b ∈ headers, b ≤ last
  next_mem : ∀ b ∈ headers, b ≠ last → next b ∈ headers
  gap_le : ∀ b ∈ headers, b ≠ last → b + gap ≤ next b
  between : ∀ b ∈ headers, b ≠ last → ∀ c ∈ headers, c ≤ b ∨ next b ≤ c

/-- The pointers lead from header to header, forth and back. -/
structure Blocks (gap last : ℕ) (next prev : ℕ → ℕ) (headers : Set ℕ) : Prop extends
    Headers gap last next headers where
  prev_mem : ∀ b ∈ headers, b ≠ last → b ≠ 0 → prev b ∈ headers
  prev_ne : ∀ b ∈ headers, b ≠ last → b ≠ 0 → prev b ≠ last
  next_prev : ∀ b ∈ headers, b ≠ last → b ≠ 0 → next (prev b) = b

namespace Headers

variable {gap last : ℕ} {next next' : ℕ → ℕ} {headers : Set ℕ} {b c p : ℕ}

variable (h : Headers gap last next headers)
include h

theorem apart (hb : b ∈ headers) (hc : c ∈ headers) (before : b < c) : next b ≤ c := by
  have notLast : b ≠ last := (before.trans_le (h.le_last c hc)).ne
  exact (h.between b hb notLast c hc).resolve_left (Nat.not_le.mpr before)

theorem iterate_mem (stays : next last = last) (k : ℕ) : next^[k] 0 ∈ headers := by
  induction k with
  | zero => exact h.first
  | succ k ih =>
    rw [Function.iterate_succ_apply']
    by_cases isLast : next^[k] 0 = last
    · rw [isLast, stays]
      exact h.last_mem
    · exact h.next_mem _ ih isLast

theorem fresh (hb : b ∈ headers) (notLast : b ≠ last) (after : b < p) (before : p < next b) :
    p ∉ headers := by
  intro hp
  rcases h.between b hb notLast p hp with low | high <;> omega

/-- The headers are what the first leads to. -/
theorem mem_iff_iterate (positive : 0 < gap) (stays : next last = last) :
    c ∈ headers ↔ ∃ k, next^[k] 0 = c := by
  refine ⟨fun hc => ?_, fun ⟨k, found⟩ => found ▸ h.iterate_mem stays k⟩
  -- the distance to `c` gets smaller with each header
  suffices walk : ∀ d b, b ∈ headers → b ≤ c → c - b ≤ d → ∃ k, next^[k] b = c from
    walk c 0 h.first (Nat.zero_le c) (by omega)
  intro d
  induction d with
  | zero => exact fun b _ le near => ⟨0, by rw [Function.iterate_zero, id]; omega⟩
  | succ d ih =>
    intro b hb le near
    by_cases same : b = c
    · exact ⟨0, same⟩
    · have before : b < c := lt_of_le_of_ne le same
      have notLast : b ≠ last := (before.trans_le (h.le_last c hc)).ne
      have gapLe := h.gap_le b hb notLast
      obtain ⟨k, found⟩ := ih (next b) (h.next_mem b hb notLast) (h.apart hb hc before) (by omega)
      exact ⟨k + 1, found⟩

theorem gap_apart (hb : b ∈ headers) (hc : c ∈ headers) (other : c ≠ b) :
    c + gap ≤ b ∨ b + gap ≤ c := by
  rcases lt_or_gt_of_ne other with before | behind
  · have notLast : c ≠ last := (before.trans_le (h.le_last b hb)).ne
    exact .inl ((h.gap_le c hc notLast).trans (h.apart hc hb before))
  · have notLast : b ≠ last := (behind.trans_le (h.le_last c hc)).ne
    exact .inr ((h.gap_le b hb notLast).trans (h.apart hb hc behind))

theorem split (hb : b ∈ headers) (notLast : b ≠ last) (positive : 0 < gap) (after : b + gap ≤ p)
    (fits : p + gap ≤ next b) (nextB : next' b = p) (nextP : next' p = next b)
    (nexts : ∀ c ∈ headers, c ≠ b → next' c = next c) :
    Headers gap last next' (insert p headers) := by
  have isNext := h.next_mem b hb notLast
  have nextLe := h.le_last _ isNext
  have cases (c : ℕ) (hc : c ∈ insert p headers) : c = p ∧ next' c = next b ∨
      c = b ∧ next' c = p ∨ c ∈ headers ∧ c ≠ b ∧ next' c = next c := by
    rcases hc with rfl | old
    · exact .inl ⟨rfl, nextP⟩
    · by_cases isB : c = b
      · exact .inr (.inl ⟨isB, isB ▸ nextB⟩)
      · exact .inr (.inr ⟨old, isB, nexts c old isB⟩)
  refine ⟨.inr h.first, .inr h.last_mem, fun c hc => ?_, fun c hc ne => ?_, fun c hc ne => ?_,
    fun c hc ne d hd => ?_⟩
  · rcases hc with rfl | old
    · omega
    · exact h.le_last c old
  · rcases cases c hc with ⟨rfl, eq⟩ | ⟨rfl, eq⟩ | ⟨old, isB, eq⟩ <;> rw [eq]
    · exact .inr isNext
    · exact .inl rfl
    · exact .inr (h.next_mem c old ne)
  · rcases cases c hc with ⟨rfl, eq⟩ | ⟨rfl, eq⟩ | ⟨old, isB, eq⟩ <;> rw [eq]
    · exact fits
    · exact after
    · exact h.gap_le c old ne
  · rcases cases c hc with ⟨rfl, eq⟩ | ⟨rfl, eq⟩ | ⟨oldC, isB, eq⟩ <;> rw [eq] <;>
      rcases hd with rfl | old
    · exact .inl le_rfl
    · rcases h.between b hb notLast d old with before | behind
      · exact .inl (by omega)
      · exact .inr behind
    · exact .inr le_rfl
    · rcases h.between c hb notLast d old with before | behind
      · exact .inl before
      · exact .inr (by omega)
    · -- the other block is before `b` or behind it
      rcases lt_or_gt_of_ne isB with before | behind
      · have := h.apart oldC hb before
        exact .inr (by omega)
      · have := h.apart hb oldC behind
        exact .inl (by omega)
    · exact h.between c oldC ne d old

theorem join (hb : b ∈ headers) (notLast : b ≠ last) (positive : 0 < gap) (inside : next b ≠ last)
    (nextB : next' b = next (next b))
    (nexts : ∀ c ∈ headers, c ≠ b → c ≠ next b → next' c = next c) :
    Headers gap last next' (headers \ {next b}) := by
  have isNext := h.next_mem b hb notLast
  have gapB := h.gap_le b hb notLast
  have gapNext := h.gap_le _ isNext inside
  refine ⟨⟨h.first, fun same => ?_⟩, ⟨h.last_mem, fun same => inside same.symm⟩,
    fun c hc => h.le_last c hc.1, fun c hc ne => ?_, fun c hc ne => ?_, fun c hc ne d hd => ?_⟩
  · have := Set.mem_singleton_iff.mp same
    omega
  · by_cases isB : c = b
    · rw [isB, nextB]
      refine ⟨h.next_mem _ isNext inside, fun same => ?_⟩
      have := Set.mem_singleton_iff.mp same
      omega
    · rw [nexts c hc.1 isB hc.2]
      refine ⟨h.next_mem c hc.1 ne, fun same => ?_⟩
      -- only `b` comes before its neighbour
      have same := Set.mem_singleton_iff.mp same
      have gapC := h.gap_le c hc.1 ne
      rcases lt_or_gt_of_ne isB with before | behind
      · have := h.apart hc.1 hb before
        omega
      · have := h.apart hb hc.1 behind
        omega
  · by_cases isB : c = b
    · rw [isB, nextB]
      omega
    · rw [nexts c hc.1 isB hc.2]
      exact h.gap_le c hc.1 ne
  · by_cases isB : c = b
    · subst isB
      rw [nextB]
      rcases h.between c hb notLast d hd.1 with before | behind
      · exact .inl before
      · have ne' : d ≠ next c := hd.2
        exact .inr (h.apart isNext hd.1 (lt_of_le_of_ne behind (Ne.symm ne')))
    · rw [nexts c hc.1 isB hc.2]
      exact h.between c hc.1 ne d hd.1

end Headers

namespace Blocks

variable {gap last : ℕ} {next prev next' prev' : ℕ → ℕ} {headers : Set ℕ} {b c p : ℕ}

variable (blocks : Blocks gap last next prev headers)
include blocks

theorem congr (nexts : ∀ b ∈ headers, b ≠ last → next' b = next b)
    (prevs : ∀ b ∈ headers, b ≠ last → prev' b = prev b) : Blocks gap last next' prev' headers := by
  refine ⟨⟨blocks.first, blocks.last_mem, blocks.le_last, fun b hb notLast => ?_,
    fun b hb notLast => ?_, fun b hb notLast => ?_⟩, fun b hb notLast notFirst => ?_,
    fun b hb notLast notFirst => ?_, fun b hb notLast notFirst => ?_⟩
  · rw [nexts b hb notLast]
    exact blocks.next_mem b hb notLast
  · rw [nexts b hb notLast]
    exact blocks.gap_le b hb notLast
  · rw [nexts b hb notLast]
    exact blocks.between b hb notLast
  · rw [prevs b hb notLast]
    exact blocks.prev_mem b hb notLast notFirst
  · rw [prevs b hb notLast]
    exact blocks.prev_ne b hb notLast notFirst
  · rw [prevs b hb notLast, nexts _ (blocks.prev_mem b hb notLast notFirst)
      (blocks.prev_ne b hb notLast notFirst)]
    exact blocks.next_prev b hb notLast notFirst

theorem split (hb : b ∈ headers) (notLast : b ≠ last) (positive : 0 < gap) (after : b + gap ≤ p)
    (fits : p + gap ≤ next b) (nextB : next' b = p) (nextP : next' p = next b)
    (nexts : ∀ c ∈ headers, c ≠ b → next' c = next c) (prevP : prev' p = b)
    (prevNext : next b ≠ last → prev' (next b) = p)
    (prevs : ∀ c ∈ headers, c ≠ last → c ≠ next b → prev' c = prev c) :
    Blocks gap last next' prev' (insert p headers) := by
  have nextLe := blocks.le_last _ (blocks.next_mem b hb notLast)
  have cases (c : ℕ) (hc : c ∈ insert p headers) (ne : c ≠ last) : c = p ∧ prev' c = b ∨
      c = next b ∧ prev' c = p ∨ c ∈ headers ∧ c ≠ next b ∧ prev' c = prev c := by
    rcases hc with rfl | old
    · exact .inl ⟨rfl, prevP⟩
    · by_cases isNext : c = next b
      · exact .inr (.inl ⟨isNext, isNext ▸ prevNext (isNext ▸ ne)⟩)
      · exact .inr (.inr ⟨old, isNext, prevs c old ne isNext⟩)
  refine ⟨blocks.toHeaders.split hb notLast positive after fits nextB nextP nexts,
    fun c hc ne notFirst => ?_, fun c hc ne notFirst => ?_, fun c hc ne notFirst => ?_⟩
  · rcases cases c hc ne with ⟨-, eq⟩ | ⟨-, eq⟩ | ⟨old, -, eq⟩ <;> rw [eq]
    · exact .inr hb
    · exact .inl rfl
    · exact .inr (blocks.prev_mem c old ne notFirst)
  · rcases cases c hc ne with ⟨-, eq⟩ | ⟨-, eq⟩ | ⟨old, -, eq⟩ <;> rw [eq]
    · exact notLast
    · omega
    · exact blocks.prev_ne c old ne notFirst
  · rcases cases c hc ne with ⟨rfl, eq⟩ | ⟨rfl, eq⟩ | ⟨old, isNext, eq⟩ <;> rw [eq]
    · exact nextB
    · exact nextP
    · have isPrev := blocks.next_prev c old ne notFirst
      have notB : prev c ≠ b := fun same => isNext (same ▸ isPrev).symm
      rw [nexts _ (blocks.prev_mem c old ne notFirst) notB]
      exact isPrev

theorem join (hb : b ∈ headers) (notLast : b ≠ last) (positive : 0 < gap) (inside : next b ≠ last)
    (nextB : next' b = next (next b)) (nexts : ∀ c ∈ headers, c ≠ b → c ≠ next b → next' c = next c)
    (prevNext : next (next b) ≠ last → prev' (next (next b)) = b)
    (prevs : ∀ c ∈ headers, c ≠ last → c ≠ next (next b) → c ≠ next b → prev' c = prev c) :
    Blocks gap last next' prev' (headers \ {next b}) := by
  have gapB := blocks.gap_le b hb notLast
  refine ⟨blocks.toHeaders.join hb notLast positive inside nextB nexts, fun c hc ne notFirst => ?_,
    fun c hc ne notFirst => ?_, fun c hc ne notFirst => ?_⟩
  · by_cases isNext : c = next (next b)
    · rw [isNext, prevNext (isNext ▸ ne)]
      refine ⟨hb, fun same => ?_⟩
      have := Set.mem_singleton_iff.mp same
      omega
    · rw [prevs c hc.1 ne isNext hc.2]
      refine ⟨blocks.prev_mem c hc.1 ne notFirst, fun same => isNext ?_⟩
      rw [← Set.mem_singleton_iff.mp same]
      exact (blocks.next_prev c hc.1 ne notFirst).symm
  · by_cases isNext : c = next (next b)
    · rw [isNext, prevNext (isNext ▸ ne)]
      exact notLast
    · rw [prevs c hc.1 ne isNext hc.2]
      exact blocks.prev_ne c hc.1 ne notFirst
  · by_cases isNext : c = next (next b)
    · rw [isNext, prevNext (isNext ▸ ne), nextB]
    · have isPrev := blocks.next_prev c hc.1 ne notFirst
      have notB : prev c ≠ b := fun same => hc.2 (same ▸ isPrev).symm
      have notNext : prev c ≠ next b := fun same => isNext (same ▸ isPrev).symm
      rw [prevs c hc.1 ne isNext hc.2, nexts _ (blocks.prev_mem c hc.1 ne notFirst) notB notNext]
      exact isPrev

end Blocks
