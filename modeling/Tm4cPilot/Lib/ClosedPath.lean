import Mathlib.Data.List.Rotate

/-!
# Closed paths

The edges of a closed path join each vertex to the one before it, the first to the last. Up to order
and direction they do not depend on where the list starts or which way round it goes.
-/

namespace ClosedPath

open List

variable {α : Type*}

/-- The edges of the open path that starts at `a` and goes through the list. -/
def edgesFrom : α → List α → List (α × α)
  | _, [] => []
  | a, b :: l => (a, b) :: edgesFrom b l

/-- The edges of the path. -/
def edges (l : List α) : List (α × α) :=
  match l.getLast? with
  | none => []
  | some z => edgesFrom z l

theorem edges_concat (l : List α) (z : α) : edges (l ++ [z]) = edgesFrom z (l ++ [z]) := by
  simp [edges]

theorem edgesFrom_append (a : α) (l : List α) (b : α) (m : List α) :
    edgesFrom a (l ++ [b] ++ m) = edgesFrom a (l ++ [b]) ++ edgesFrom b m := by
  induction l generalizing a with
  | nil => rfl
  | cons c l ih =>
    simp only [cons_append, edgesFrom]
    rw [ih]

theorem mem_of_mem_edgesFrom {a : α} {l : List α} {e : α × α} (h : e ∈ edgesFrom a l) :
    (e.1 = a ∨ e.1 ∈ l) ∧ e.2 ∈ l := by
  induction l generalizing a with
  | nil => cases h
  | cons b l ih =>
    rcases mem_cons.mp h with rfl | h
    · exact ⟨Or.inl rfl, mem_cons_self⟩
    · obtain ⟨start, finish⟩ := ih h
      refine ⟨Or.inr (mem_cons.mpr start), mem_cons_of_mem b finish⟩

theorem mem_of_mem_edges {l : List α} {e : α × α} (h : e ∈ edges l) : e.1 ∈ l ∧ e.2 ∈ l := by
  rcases l.eq_nil_or_concat' with rfl | ⟨l, z, rfl⟩
  · cases h
  · rw [edges_concat] at h
    obtain ⟨start, finish⟩ := mem_of_mem_edgesFrom h
    refine ⟨?_, finish⟩
    rcases start with rfl | start
    · simp
    · exact start

theorem edges_append_comm (l m : List α) : (edges (l ++ m)).Perm (edges (m ++ l)) := by
  rcases l.eq_nil_or_concat' with rfl | ⟨l, x, rfl⟩
  · simp
  rcases m.eq_nil_or_concat' with rfl | ⟨m, y, rfl⟩
  · simp
  have split (l m : List α) (x y : α) : edges (l ++ [x] ++ (m ++ [y])) =
      edgesFrom y (l ++ [x]) ++ edgesFrom x (m ++ [y]) := by
    rw [← append_assoc, edges_concat, append_assoc, edgesFrom_append]
  rw [split, split]
  exact perm_append_comm

theorem edges_rotate (l : List α) (k : ℕ) : (edges (l.rotate k)).Perm (edges l) := by
  rw [rotate_eq_drop_append_take_mod]
  conv_rhs => rw [← take_append_drop (k % l.length) l]
  exact edges_append_comm _ _

theorem edgesFrom_reverse (a b : α) (l : List α) :
    edgesFrom a (l.reverse ++ [b]) = ((edgesFrom b (l ++ [a])).map Prod.swap).reverse := by
  induction l generalizing b with
  | nil => rfl
  | cons c l ih =>
    rw [reverse_cons, edgesFrom_append, ih]
    simp [edgesFrom]

theorem edges_reverse (l : List α) : (edges l.reverse).Perm ((edges l).map Prod.swap) := by
  rcases l.eq_nil_or_concat' with rfl | ⟨l, z, rfl⟩
  · exact List.Perm.refl _
  · have start : (edges (l ++ [z]).reverse).Perm (edges (l.reverse ++ [z])) := by
      rw [reverse_append]
      exact edges_append_comm [z] l.reverse
    refine start.trans ?_
    rw [edges_concat, edgesFrom_reverse, edges_concat]
    exact reverse_perm _

theorem edges_closing (a : α) (l : List α) :
    (edges (a :: l ++ [a])).Perm ((a, a) :: edges (a :: l)) := by
  rw [edges_concat]
  refine List.Perm.cons (a, a) ?_
  change (edgesFrom a (l ++ [a])).Perm (edges ([a] ++ l))
  rw [← edges_concat]
  exact edges_append_comm l [a]

end ClosedPath
