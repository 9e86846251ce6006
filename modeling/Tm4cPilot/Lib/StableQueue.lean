import Mathlib.Data.List.Sort
import Mathlib.Tactic

/-!
# Queues in the order of a key

A queue is kept in the order of a key, and elements with one key stay in the order in which they
were put in.
-/

namespace StableQueue

open List

variable {α β : Type*} [LinearOrder β] {key : α → β} {serial : α → ℕ} {a b : α} {l : List α}

/-- The order of the key, then of the insertion. -/
def Before (key : α → β) (serial : α → ℕ) (a b : α) : Prop :=
  key a < key b ∨ key a = key b ∧ serial a < serial b

theorem Before.key_le (h : Before key serial a b) : key a ≤ key b := by
  rcases h with hlt | ⟨heq, -⟩
  · exact hlt.le
  · exact heq.le

/-- A new element is put behind its equals. -/
theorem pairwise_orderedInsert {r : α → α → Prop} [DecidableRel r]
    (hr : ∀ a b, r a b ↔ key a < key b) (h : l.Pairwise (Before key serial))
    (hnewest : ∀ b ∈ l, serial b < serial a) :
    (l.orderedInsert r a).Pairwise (Before key serial) := by
  induction l with
  | nil => exact pairwise_singleton _ _
  | cons b l ih =>
    obtain ⟨hb, hl⟩ := pairwise_cons.mp h
    rw [orderedInsert_cons]
    split
    · next hlt =>
      rw [hr] at hlt
      refine pairwise_cons.mpr ⟨fun c hc => ?_, h⟩
      rcases mem_cons.mp hc with rfl | hc
      · exact .inl hlt
      · exact .inl (hlt.trans_le (hb c hc).key_le)
    · next hge =>
      rw [hr, not_lt] at hge
      refine pairwise_cons.mpr ⟨fun c hc => ?_, ih hl fun c hc => hnewest c (.tail b hc)⟩
      rcases (mem_orderedInsert r).mp hc with rfl | hc
      · rcases hge.lt_or_eq with hlt | heq
        · exact .inl hlt
        · exact .inr ⟨heq, hnewest b mem_cons_self⟩
      · exact hb c hc

end StableQueue
