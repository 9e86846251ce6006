import Mathlib.Tactic

/-!
# Singly linked lists

Nodes with a `next` pointer.  `Chain` says which nodes a pointer leads to, `Queue` also that a second
pointer leads to the last of them.
-/

namespace LinkedList

open Function List

variable {α : Type*} {next : α → Option α} {p head tail : Option α} {b t : α} {bs : List α}

/-- The pointer leads to these nodes. -/
def Chain (next : α → Option α) : Option α → List α → Prop
  | p, [] => p = none
  | p, b :: bs => p = some b ∧ Chain next (next b) bs

@[simp] theorem chain_nil : Chain next p [] ↔ p = none := Iff.rfl

@[simp] theorem chain_cons : Chain next p (b :: bs) ↔ p = some b ∧ Chain next (next b) bs := Iff.rfl

theorem Chain.eq_nil_iff (chain : Chain next p bs) : bs = [] ↔ p = none := by
  cases bs with
  | nil => simpa using chain
  | cons b bs => simp [chain.1]

section Writes

variable [DecidableEq α]

theorem Chain.write (chain : Chain next p bs) (absent : b ∉ bs) (q : Option α) :
    Chain (update next b q) p bs := by
  induction bs generalizing p with
  | nil => exact chain
  | cons c bs ih =>
    rw [mem_cons, not_or] at absent
    refine ⟨chain.1, ?_⟩
    rw [update_of_ne (Ne.symm absent.1)]
    exact ih chain.2 absent.2

theorem Chain.push (chain : Chain next p bs) (absent : b ∉ bs) :
    Chain (update next b p) (some b) (b :: bs) := by
  refine ⟨rfl, ?_⟩
  rw [update_self]
  exact chain.write absent p

theorem Chain.append (chain : Chain next p (bs ++ [t])) (nodup : (bs ++ [t]).Nodup)
    (last : next b = none) (absent : b ∉ bs ++ [t]) :
    Chain (update next t (some b)) p (bs ++ [t] ++ [b]) := by
  induction bs generalizing p with
  | nil =>
    have other : b ≠ t := by simpa using absent
    simp [chain.1, update_of_ne other, last]
  | cons c bs ih =>
    rw [cons_append, nodup_cons] at nodup
    rw [cons_append, mem_cons, not_or] at absent
    have other : c ≠ t := by
      rintro rfl
      exact nodup.1 (by simp)
    refine ⟨chain.1, ?_⟩
    rw [update_of_ne other]
    exact ih chain.2 nodup.2 absent.2

end Writes

/-- `head` leads to the nodes, and `tail` to the last of them. -/
structure Queue (next : α → Option α) (head tail : Option α) (bs : List α) : Prop where
  chain : Chain next head bs
  last : tail = bs.getLast?
  nodup : bs.Nodup

theorem queue_nil : Queue next none none [] := ⟨rfl, rfl, nodup_nil⟩

/-- Remove the first node. -/
theorem Queue.pop [DecidableEq α] (queue : Queue next head tail (b :: bs)) :
    head = some b ∧ Queue next (next b) (if tail = some b then none else tail) bs := by
  obtain ⟨fresh, nodup⟩ := nodup_cons.mp queue.nodup
  refine ⟨queue.chain.1, queue.chain.2, ?_, nodup⟩
  have last := queue.last
  cases bs with
  | nil => simp [last]
  | cons c bs =>
    rw [getLast?_cons_cons] at last
    have other : tail ≠ some b := by
      intro same
      rw [last] at same
      exact fresh (mem_of_getLast? same)
    rw [if_neg other, last]

section Writes

variable [DecidableEq α]

theorem Queue.write (queue : Queue next head tail bs) (absent : b ∉ bs) (q : Option α) :
    Queue (update next b q) head tail bs :=
  ⟨queue.chain.write absent q, queue.last, queue.nodup⟩

theorem Queue.push (queue : Queue next head tail bs) (absent : b ∉ bs) :
    Queue (update next b head) (some b) (if tail = none then some b else tail)
      (b :: bs) := by
  refine ⟨queue.chain.push absent, ?_, nodup_cons.mpr ⟨absent, queue.nodup⟩⟩
  cases bs with
  | nil => simp [queue.last]
  | cons c bs =>
    have some : tail ≠ none := by simp [queue.last]
    rw [if_neg some, getLast?_cons_cons]
    exact queue.last

/-- Link a node at the end. -/
theorem Queue.append (queue : Queue next head tail bs) (last : next b = none) (absent : b ∉ bs) :
    Queue (tail.elim next fun t => update next t (some b))
      (if head = none then some b else head) (some b) (bs ++ [b]) := by
  refine ⟨?_, by simp, ?_⟩
  · rcases eq_nil_or_concat' bs with rfl | ⟨cs, t, rfl⟩
    · have isHead : head = none := queue.chain
      have isTail : tail = none := queue.last
      simp [isHead, isTail, last]
    · have isTail : tail = some t := by simp [queue.last]
      have isHead : head ≠ none := by
        intro none
        have empty := queue.chain.eq_nil_iff.mpr none
        simp at empty
      rw [isTail, if_neg isHead]
      exact queue.chain.append queue.nodup last absent
  · rw [nodup_append]
    refine ⟨queue.nodup, nodup_singleton b, ?_⟩
    rintro c inQueue _ isB rfl
    exact absent (mem_singleton.mp isB ▸ inQueue)

end Writes

end LinkedList
