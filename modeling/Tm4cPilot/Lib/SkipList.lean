import Mathlib.Tactic

/-!
# Skip lists

Rows of nodes, each a part of the next one. The place for a new node, which is the node before it,
is found by walking along each row from the place found in the row above.
-/

namespace SkipList

open List

variable {α : Type*} [DecidableEq α] {passes : α → Bool} {t : α} {row : List α} {rows : ℕ → List α}

/-- What follows a place. -/
def after : Option α → List α → List α
  | none, row => row
  | some a, row => (row.dropWhile (· ≠ a)).tail

/-- Go over the nodes that the new one goes behind. -/
def walk (passes : α → Bool) (place : Option α) (row : List α) : Option α :=
  (((after place row).takeWhile passes).getLast?).or place

/-- The place in each row. -/
def heads (passes : α → Bool) (rows : ℕ → List α) : ℕ → Option α
  | 0 => walk passes none (rows 0)
  | i + 1 => walk passes (heads passes rows i) (rows (i + 1))

/-- Put a node at a place. -/
def insertAfter (t : α) : Option α → List α → List α
  | none, row => t :: row
  | some _, [] => [t]
  | some a, b :: row => if b = a then b :: t :: row else b :: insertAfter t (some a) row

theorem perm_insertAfter (t : α) (place : Option α) (row : List α) :
    (insertAfter t place row).Perm (t :: row) := by
  cases place with
  | none => rw [insertAfter]
  | some a =>
    induction row with
    | nil => exact .refl _
    | cons b row ih =>
      rw [insertAfter]
      split_ifs
      · exact .swap _ _ _
      · exact (ih.cons b).trans (.swap _ _ _)

theorem insertAfter_append {a : α} {xs ys : List α} (fresh : a ∉ xs) :
    insertAfter t (some a) (xs ++ a :: ys) = xs ++ a :: t :: ys := by
  induction xs with
  | nil => rw [nil_append, insertAfter, if_pos rfl, nil_append]
  | cons b xs ih =>
    rw [mem_cons, not_or] at fresh
    rw [cons_append, insertAfter, if_neg (Ne.symm fresh.1), ih fresh.2, cons_append]

theorem after_append {a : α} {xs ys : List α} (fresh : a ∉ xs) :
    after (some a) (xs ++ a :: ys) = ys := by
  have skipped : ∀ x ∈ xs, decide (x ≠ a) = true := by
    intro x inside
    simp only [decide_eq_true_iff]
    rintro rfl
    exact fresh inside
  rw [after, dropWhile_append_of_pos skipped, dropWhile_cons_of_neg (by simp), tail_cons]

/-! ## Ordered rows -/

/-- The nodes to pass come first. -/
def Parted (passes : α → Bool) (row : List α) : Prop :=
  row.filter passes ++ row.filter (fun a => !passes a) = row

omit [DecidableEq α] in
theorem parted_of_pairwise (order : row.Pairwise fun a b => passes b = true → passes a = true) :
    Parted passes row := by
  induction row with
  | nil => rfl
  | cons a row ih =>
    obtain ⟨first, rest⟩ := pairwise_cons.mp order
    by_cases behind : passes a = true
    · rw [Parted, filter_cons_of_pos behind, filter_cons_of_neg (by simp [behind]),
        cons_append, ih rest]
    · have none : row.filter passes = [] :=
        filter_eq_nil_iff.mpr fun b inside passed => behind (first b inside passed)
      have all : row.filter (fun a => !passes a) = row := by
        have whole := ih rest
        rwa [Parted, none, nil_append] at whole
      rw [Parted, filter_cons_of_neg behind, filter_cons_of_pos (by simp [behind]), none,
        all, nil_append]

omit [DecidableEq α] in
theorem takeWhile_append_filter {xs : List α} (all : ∀ x ∈ xs, passes x = true) :
    (xs ++ row.filter fun a => !passes a).takeWhile passes = xs := by
  rw [takeWhile_append_of_pos all]
  have stop : (row.filter fun a => !passes a).takeWhile passes = [] := by
    cases rest : row.filter fun a => !passes a with
    | nil => rfl
    | cons b ys =>
      have inside : b ∈ row.filter fun a => !passes a := rest ▸ mem_cons_self
      have refused := (mem_filter.mp inside).2
      exact takeWhile_cons_of_neg (by simpa using refused)
  rw [stop, append_nil]

theorem walk_eq (parted : Parted passes row) (nodup : row.Nodup) {place : Option α}
    (before : ∀ a ∈ place, a ∈ row.filter passes) :
    walk passes place row = (row.filter passes).getLast? := by
  rw [walk]
  cases place with
  | none =>
    rw [after, Option.or_none]
    nth_rewrite 1 [← parted]
    rw [takeWhile_append_filter fun x inside => (mem_filter.mp inside).2]
  | some a =>
    obtain ⟨xs, ys, split⟩ := append_of_mem (before a rfl)
    have passed : ∀ x ∈ ys, passes x = true := by
      intro x inside
      have inRow : x ∈ row.filter passes := by simp [split, inside]
      exact (mem_filter.mp inRow).2
    have fresh : a ∉ xs := by
      have first : (xs ++ a :: ys).Nodup := split ▸ nodup.filter passes
      rw [nodup_append] at first
      exact fun inside => first.2.2 a inside a mem_cons_self rfl
    have behind : after (some a) row = ys ++ row.filter fun a => !passes a := by
      nth_rewrite 1 [← parted]
      rw [split, append_assoc, cons_append, after_append fresh]
    rw [behind, takeWhile_append_filter passed, split]
    rw [getLast?_append, getLast?_cons]
    cases ys.getLast? <;> rfl

theorem insertAfter_eq (parted : Parted passes row) (nodup : row.Nodup) (t : α) :
    insertAfter t (row.filter passes).getLast? row =
      row.filter passes ++ t :: row.filter (fun a => !passes a) := by
  nth_rewrite 2 [← parted]
  rcases eq_nil_or_concat' (row.filter passes) with none | ⟨xs, a, split⟩
  · rw [none, getLast?_nil, insertAfter]
    rfl
  · have fresh : a ∉ xs := by
      have first : (xs ++ [a]).Nodup := split ▸ nodup.filter passes
      rw [nodup_append] at first
      exact fun inside => first.2.2 a inside a mem_cons_self rfl
    rw [split, getLast?_append, append_assoc, append_assoc]
    exact insertAfter_append fresh

/-- In each row the walk ends at the last node that is passed. -/
theorem heads_eq {last : ℕ} (parted : ∀ i ≤ last, Parted passes (rows i))
    (nodup : ∀ i ≤ last, (rows i).Nodup) (part : ∀ i < last, (rows i).Sublist (rows (i + 1))) {i : ℕ}
    (inside : i ≤ last) : heads passes rows i = ((rows i).filter passes).getLast? := by
  induction i with
  | zero => exact walk_eq (parted 0 inside) (nodup 0 inside) (by simp)
  | succ i ih =>
    rw [heads, ih (by omega)]
    refine walk_eq (parted _ inside) (nodup _ inside) fun a isLast => ?_
    have above : a ∈ (rows i).filter passes := mem_of_getLast? isLast
    exact ((part i (by omega)).filter passes).subset above

end SkipList
