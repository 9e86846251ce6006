import Mathlib.Tactic

/-!
# Ring buffers

A ring of `size` cells is written at one offset and read at another, and both wrap at the end.
`Holds` says which elements are in the ring, in the order in which they will be read.
-/

namespace Ring

open List Nat Function

variable {α : Type*} {size first last : ℕ} {cells : ℕ → α} {xs ys : List α} {x : α}

/-- The offset after `i`. -/
def next (size i : ℕ) : ℕ := if size ≤ i + 1 then 0 else i + 1

theorem next_eq_mod {i : ℕ} (h : i < size) : next size i = (i + 1) % size := by
  unfold next
  split_ifs with wraps
  · rw [show i + 1 = size by omega, mod_self]
  · rw [mod_eq_of_lt (by omega)]

/-- Read at `first` and written at `last`, it holds these elements. -/
structure Holds (size : ℕ) (cells : ℕ → α) (first last : ℕ) (xs : List α) : Prop where
  length_le : xs.length ≤ size
  first_lt : first < max 1 size
  last_eq : last = (first + xs.length) % size
  cell : ∀ i (h : i < xs.length), cells ((first + i) % size) = xs[i]

theorem holds_nil (size : ℕ) (cells : ℕ → α) : Holds size cells 0 0 [] :=
  ⟨zero_le _, by simp, by simp, fun _ h => absurd h (by simp)⟩

theorem Holds.last_lt (holds : Holds size cells first last xs) (space : 0 < size) :
    last < size := by
  rw [holds.last_eq]
  exact mod_lt _ space

/-- Write at the end. -/
theorem Holds.push (holds : Holds size cells first last xs) (space : xs.length < size) (x : α) :
    Holds size (update cells last x) first (next size last) (xs ++ [x]) := by
  have positive : 0 < size := by omega
  refine ⟨by simpa using space, holds.first_lt, ?_, fun i h => ?_⟩
  · rw [next_eq_mod (holds.last_lt positive), holds.last_eq, length_append,
      length_singleton, mod_add_mod, add_assoc]
  · rw [length_append, length_singleton] at h
    by_cases old : i < xs.length
    · -- the cells before it are others
      have other : (first + i) % size ≠ last := by
        rw [holds.last_eq]
        intro same
        have := Nat.ModEq.add_left_cancel' first same
        rw [Nat.ModEq, mod_eq_of_lt (by omega), mod_eq_of_lt space] at this
        omega
      rw [update_of_ne other, holds.cell i old, getElem_append_left old]
    · obtain rfl : i = xs.length := by omega
      rw [← holds.last_eq, update_self]
      simp

/-- Read at the start. -/
theorem Holds.pop (holds : Holds size cells first last (x :: xs)) :
    cells first = x ∧ Holds size cells (next size first) last xs := by
  have room := holds.length_le
  rw [length_cons] at room
  have inside : first < size := by
    have := holds.first_lt
    omega
  constructor
  · have here := holds.cell 0 (by simp)
    rwa [add_zero, mod_eq_of_lt inside] at here
  · rw [next_eq_mod inside]
    refine ⟨by omega, ?_, ?_, fun i h => ?_⟩
    · exact lt_of_lt_of_le (mod_lt _ (by omega)) (le_max_right _ _)
    · rw [holds.last_eq, length_cons, mod_add_mod]
      congr 1
      omega
    · have here := holds.cell (i + 1) (by simpa using h)
      rw [mod_add_mod]
      rwa [show first + (i + 1) = first + 1 + i by omega] at here

/-! ## Several elements at once -/

/-- The cells after a copy to `start`. -/
def copy (cells : ℕ → α) (start : ℕ) (ys : List α) (i : ℕ) : α :=
  if start ≤ i then ys[i - start]?.getD (cells i) else cells i

/-- The `n` cells from `start` on. -/
def slice (cells : ℕ → α) (start n : ℕ) : List α := (range n).map fun i => cells (start + i)

theorem copy_inside (start : ℕ) {i : ℕ} (h : i < ys.length) :
    copy cells start ys (start + i) = ys[i] := by
  rw [copy, if_pos (Nat.le_add_right ..), Nat.add_sub_cancel_left, getElem?_eq_getElem h,
    Option.getD_some]

theorem copy_outside {start i : ℕ} (h : i < start ∨ start + ys.length ≤ i) :
    copy cells start ys i = cells i := by
  rw [copy]
  split_ifs with after
  · rw [getElem?_eq_none (by omega), Option.getD_none]
  · rfl

@[simp] theorem copy_nil (start : ℕ) : copy cells start [] = cells :=
  funext fun i => copy_outside (lt_or_ge i start)

section

variable (holds : Holds size cells first last xs)
include holds

theorem Holds.copy (ys : List α) (fits : xs.length + ys.length ≤ size)
    (inside : last + ys.length ≤ size) :
    Holds size (copy cells last ys) first ((last + ys.length) % size) (xs ++ ys) := by
  refine ⟨by rwa [length_append], holds.first_lt, ?_, fun i h => ?_⟩
  · rw [holds.last_eq, length_append, mod_add_mod, add_assoc]
  · rw [length_append] at h
    have firstLt : first < size := by
      have := holds.first_lt
      omega
    by_cases old : i < xs.length
    · rw [getElem_append_left old, ← holds.cell i old]
      -- the cells before them are others
      apply copy_outside
      have lastEq := holds.last_eq
      have mod (k : ℕ) (hk : k < 2 * size) : k % size = if k < size then k else k - size := by
        split_ifs with lt
        · exact mod_eq_of_lt lt
        · rw [mod_eq_sub_mod (by omega), mod_eq_of_lt (by omega)]
      rw [mod _ (by omega)] at lastEq ⊢
      split_ifs at lastEq ⊢ <;> omega
    · rw [getElem_append_right (by omega)]
      have there : (first + i) % size = last + (i - xs.length) := by
        rw [show first + i = first + xs.length + (i - xs.length) by omega, ← mod_add_mod,
          ← holds.last_eq, mod_eq_of_lt (by omega)]
      rw [there, copy_inside]

theorem Holds.drop {n : ℕ} (le : n ≤ xs.length) :
    Holds size cells ((first + n) % size) last (xs.drop n) := by
  have room := holds.length_le
  refine ⟨?_, ?_, ?_, fun i h => ?_⟩
  · rw [length_drop]
    omega
  · by_cases positive : 0 < size
    · exact lt_max_of_lt_right (mod_lt _ positive)
    · have := holds.first_lt
      rw [show size = 0 by omega, mod_zero]
      omega
  · rw [holds.last_eq, length_drop, mod_add_mod]
    congr 1
    omega
  · rw [length_drop] at h
    have here := holds.cell (n + i) (by omega)
    rw [mod_add_mod, add_assoc, here, getElem_drop]

theorem Holds.last_eq_first_iff (positive : 0 < size) :
    last = first ↔ xs.length = 0 ∨ xs.length = size := by
  have firstLt := holds.first_lt
  have room := holds.length_le
  rw [holds.last_eq]
  by_cases wraps : first + xs.length < size
  · rw [mod_eq_of_lt wraps]
    omega
  · rw [mod_eq_sub_mod (by omega), mod_eq_of_lt (by omega)]
    omega

theorem Holds.slice_eq_take {n : ℕ} (le : n ≤ xs.length) (inside : first + n ≤ size) :
    slice cells first n = xs.take n := by
  apply ext_getElem
  · rw [slice, length_map, length_range, length_take]
    omega
  · intro i h _
    rw [slice, length_map, length_range] at h
    have here := holds.cell i (by omega)
    rw [mod_eq_of_lt (by omega)] at here
    simp only [slice, getElem_map, getElem_range, getElem_take, here]

theorem Holds.eq_map : xs = (range xs.length).map fun i => cells ((first + i) % size) := by
  apply ext_getElem
  · rw [length_map, length_range]
  · intro i h _
    rw [getElem_map, getElem_range, holds.cell i h]

end

end Ring
