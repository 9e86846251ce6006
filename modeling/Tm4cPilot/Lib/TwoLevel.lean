import Mathlib.Tactic

/-!
# Two-level bitmaps

A bitmap in rows of `b` bits, with a group word that has one bit for each row that is not zero. The
lowest position set is found with two searches.
-/

/-- The lowest bit set. -/
def IsLowest {w : ℕ} (x : BitVec w) (i : ℕ) : Prop :=
  x.getLsbD i = true ∧ ∀ j < i, x.getLsbD j = false

variable {w : ℕ} {x : BitVec w}

theorem IsLowest.lt {i : ℕ} (h : IsLowest x i) : i < w :=
  BitVec.lt_of_getLsbD h.1

theorem IsLowest.le {i j : ℕ} (h : IsLowest x i)
    (bit : x.getLsbD j = true) : i ≤ j := by
  by_contra less
  rw [h.2 j (by omega)] at bit
  exact Bool.false_ne_true bit

theorem eq_zero_iff_getLsbD : x = 0#w ↔ ∀ i, x.getLsbD i = false := by
  refine ⟨fun zero i => by rw [zero, BitVec.getLsbD_zero], fun none => ?_⟩
  apply BitVec.eq_of_getLsbD_eq
  intro i _
  rw [none, BitVec.getLsbD_zero]

/-- A bitmap of `g` rows of `b` bits. -/
structure TwoLevel (g b : ℕ) where
  group : BitVec g
  table : ℕ → BitVec b

namespace TwoLevel

open Function

variable {g b : ℕ} {m : TwoLevel g b} {n n' i i' : ℕ}

/-- Bit `i` of row `n` is set. -/
def Mem (m : TwoLevel g b) (n i : ℕ) : Prop :=
  m.group.getLsbD n = true ∧ (m.table n).getLsbD i = true

/-- The group has the rows that are not zero. -/
def Consistent (m : TwoLevel g b) : Prop :=
  ∀ n < g, m.group.getLsbD n = true ↔ m.table n ≠ 0#b

def set (m : TwoLevel g b) (n i : ℕ) : TwoLevel g b where
  group := m.group ||| BitVec.twoPow g n
  table := update m.table n (m.table n ||| BitVec.twoPow b i)

def clear (m : TwoLevel g b) (n i : ℕ) : TwoLevel g b where
  group := if m.table n &&& ~~~BitVec.twoPow b i = 0#b
    then m.group &&& ~~~BitVec.twoPow g n else m.group
  table := update m.table n (m.table n &&& ~~~BitVec.twoPow b i)

def empty : TwoLevel g b := ⟨0#g, fun _ => 0#b⟩

theorem consistent_empty : (empty : TwoLevel g b).Consistent := by
  intro n _
  simp [empty]

theorem not_mem_empty : ¬ (empty : TwoLevel g b).Mem n i := by
  simp [empty, Mem]

theorem Consistent.mem_iff (h : m.Consistent) :
    m.Mem n i ↔ n < g ∧ (m.table n).getLsbD i = true := by
  constructor
  · rintro ⟨row, bit⟩
    exact ⟨BitVec.lt_of_getLsbD row, bit⟩
  · rintro ⟨less, bit⟩
    refine ⟨(h n less).mpr fun zero => ?_, bit⟩
    rw [zero, BitVec.getLsbD_zero] at bit
    exact Bool.false_ne_true bit

theorem Consistent.set (h : m.Consistent) (hn : n < g) (hi : i < b) : (m.set n i).Consistent := by
  intro n' less
  by_cases same : n' = n
  · subst same
    have bit : (m.table n' ||| BitVec.twoPow b i).getLsbD i = true := by simp [hi]
    have nonzero : m.table n' ||| BitVec.twoPow b i ≠ 0#b := by
      intro zero
      rw [zero, BitVec.getLsbD_zero] at bit
      exact Bool.false_ne_true bit
    simp [TwoLevel.set, nonzero, hn]
  · have other : ¬ n = n' := fun eq => same eq.symm
    simpa [TwoLevel.set, update_of_ne same, other] using h n' less

theorem Consistent.mem_set (h : m.Consistent) (hn : n < g) (hi : i < b) :
    (m.set n i).Mem n' i' ↔ (n' = n ∧ i' = i) ∨ m.Mem n' i' := by
  rw [(h.set hn hi).mem_iff, h.mem_iff]
  by_cases same : n' = n
  · subst same
    simp only [TwoLevel.set, update_self, BitVec.getLsbD_or, BitVec.getLsbD_twoPow, hn, hi,
      decide_true, Bool.true_and, Bool.or_eq_true, decide_eq_true_eq, true_and]
    rw [or_comm, eq_comm]
  · simp [TwoLevel.set, same]

theorem Consistent.clear (h : m.Consistent) (hn : n < g) : (m.clear n i).Consistent := by
  intro n' less
  by_cases same : n' = n
  · subst same
    simp only [TwoLevel.clear, update_self]
    split_ifs with zero
    · simp [zero, hn]
    · rw [h n' less]
      refine iff_of_true (fun whole => zero ?_) zero
      rw [whole, BitVec.zero_and]
  · have row : (m.clear n i).table n' = m.table n' := update_of_ne same _ _
    rw [row, ← h n' less]
    simp only [TwoLevel.clear]
    split_ifs <;> simp [less, same]

theorem Consistent.mem_clear (h : m.Consistent) (hn : n < g) :
    (m.clear n i).Mem n' i' ↔ m.Mem n' i' ∧ ¬ (n' = n ∧ i' = i) := by
  rw [(h.clear hn).mem_iff, h.mem_iff]
  by_cases same : n' = n
  · subst same
    by_cases bit : (m.table n').getLsbD i' = true
    · have inside := BitVec.lt_of_getLsbD bit
      simp [TwoLevel.clear, bit, inside]
    · simp [TwoLevel.clear, bit]
  · simp [TwoLevel.clear, same]

/-- The lowest bits give the lowest element. -/
theorem Mem.lowest (mem : m.Mem n' i') (row : IsLowest m.group n) (bit : IsLowest (m.table n) i) :
    n < n' ∨ (n = n' ∧ i ≤ i') := by
  rcases (row.le mem.1).lt_or_eq with less | rfl
  · exact Or.inl less
  · exact Or.inr ⟨rfl, bit.le mem.2⟩

end TwoLevel
