import Mathlib.Tactic

/-!
# Queues with urgent elements

An element is put at the end of a queue, or in front of it if it is urgent. Each remembers which
ones were ahead of it.
-/

namespace UrgentQueue

open List

/-- An element with its number and those it found in the queue. -/
structure Item (α : Type*) where
  id : ℕ
  urgent : Bool
  present : List ℕ
  value : α

/-- The queue, and what has been linked and taken. -/
structure Log (α : Type*) where
  queue : List (Item α)
  linked : List (Item α)
  taken : List (Item α)

namespace Log

variable {α : Type*} (l : Log α)

/-- Nothing has been linked. -/
def empty : Log α := ⟨[], [], []⟩

/-- The next element. -/
def item (urgent : Bool) (value : α) : Item α where
  id := l.linked.length
  urgent := urgent
  present := l.queue.map Item.id
  value := value

/-- Link an element. -/
def link (urgent : Bool) (value : α) : Log α where
  queue := if urgent then l.item urgent value :: l.queue else l.queue ++ [l.item urgent value]
  linked := l.linked ++ [l.item urgent value]
  taken := l.taken

/-- Take the first element. -/
def take : Log α where
  queue := l.queue.tail
  linked := l.linked
  taken := l.taken ++ l.queue.head?.toList

/-- Empty the queue. -/
def clear : Log α := { l with queue := [] }

/-- What has been taken, then what waits. -/
def order : List (Item α) := l.taken ++ l.queue

@[simp] theorem order_take : l.take.order = l.order := by
  cases isQueue : l.queue <;> simp [order, take, isQueue]

/-- Ordinary elements stay in order, urgent ones go before those they found. -/
structure Ordered : Prop where
  known : ∀ m ∈ l.order, m ∈ l.linked
  number : ∀ m ∈ l.linked, m.id < l.linked.length
  earlier : ∀ m ∈ l.linked, ∀ i ∈ m.present, i < l.linked.length
  nodup : (l.order.map Item.id).Nodup
  ordinary : (l.order.filter fun m => !m.urgent).Pairwise fun m n => m.id < n.id
  urgent : ∀ u ∈ l.linked, u.urgent = true → ∀ m ∈ l.order, m.id ∈ u.present → [u, m] <+ l.order

theorem ordered_empty : (empty : Log α).Ordered := by
  constructor <;> simp [empty, order]

variable {l}

namespace Ordered

theorem take (ordered : l.Ordered) : l.take.Ordered := by
  obtain ⟨known, number, earlier, nodup, ordinary, urgent⟩ := ordered
  refine ⟨?_, number, earlier, ?_, ?_, ?_⟩ <;> rwa [order_take]

theorem clear (ordered : l.Ordered) : l.clear.Ordered := by
  have shorter : l.clear.order <+ l.order := by simp [order, Log.clear]
  refine ⟨fun m inOrder => ordered.known m (shorter.subset inOrder), ordered.number,
    ordered.earlier, (shorter.map _).nodup ordered.nodup,
    ordered.ordinary.sublist (shorter.filter _), fun u isLinked isUrgent m inOrder present => ?_⟩
  have pair := ordered.urgent u isLinked isUrgent m (shorter.subset inOrder) present
  -- the element itself has been taken, so that it is not in the queue
  obtain ⟨before, after, isPair, before_le, after_le⟩ := sublist_append_iff.mp pair
  have gone : after = [] := by
    rcases eq_nil_or_concat' after with none | ⟨front, last, rfl⟩
    · exact none
    · obtain rfl : m = last := by
        have := congrArg List.getLast? isPair
        simpa using this
      have nodup := ordered.nodup
      rw [order, map_append, nodup_append] at nodup
      have taken : m ∈ l.taken := by simpa [order, Log.clear] using inOrder
      exact absurd rfl (nodup.2.2 _ (mem_map_of_mem taken) _
        (mem_map_of_mem (after_le.subset (by simp))))
  rw [gone, append_nil] at isPair
  rw [isPair]
  simpa [order, Log.clear] using before_le

theorem fresh (ordered : l.Ordered) {m : Item α} (inOrder : m ∈ l.order) : m.id < l.linked.length :=
  ordered.number m (ordered.known m inOrder)

theorem link (ordered : l.Ordered) (urgent : Bool) (value : α) : (l.link urgent value).Ordered := by
  set new := l.item urgent value with isNew
  have longer : l.order <+ (l.link urgent value).order := by
    cases urgent with
    | true => exact (sublist_cons_self _ _).append_left _
    | false => exact (sublist_append_left _ _).append_left _
  have perm : (l.link urgent value).order.Perm (new :: l.order) := by
    cases urgent with
    | true => exact perm_middle
    | false =>
      simp only [order, Log.link, Bool.false_eq_true, if_false, ← append_assoc]
      exact perm_append_singleton _ _
  have cases (m : Item α) : m ∈ (l.link urgent value).order ↔ m = new ∨ m ∈ l.order := by
    rw [perm.mem_iff, mem_cons]
  have isLinked (m : Item α) : m ∈ (l.link urgent value).linked ↔ m ∈ l.linked ∨ m = new := by
    simp [Log.link, isNew]
  have length : (l.link urgent value).linked.length = l.linked.length + 1 := by simp [Log.link]
  have below (i : ℕ) (present : i ∈ new.present) : i < l.linked.length := by
    obtain ⟨m, inQueue, rfl⟩ := mem_map.mp present
    exact ordered.fresh (mem_append_right _ inQueue)
  refine ⟨fun m inOrder => ?_, fun m here => ?_, fun m here i present => ?_, ?_, ?_,
    fun u here isUrgent m inOrder present => ?_⟩
  · rw [isLinked]
    rcases (cases m).mp inOrder with rfl | before
    · exact .inr rfl
    · exact .inl (ordered.known m before)
  · rw [length]
    rcases (isLinked m).mp here with before | rfl
    · exact (ordered.number m before).trans (Nat.lt_succ_self _)
    · exact Nat.lt_succ_self _
  · rw [length]
    rcases (isLinked m).mp here with before | rfl
    · exact (ordered.earlier m before i present).trans (Nat.lt_succ_self _)
    · exact (below i present).trans (Nat.lt_succ_self _)
  · rw [(perm.map Item.id).nodup_iff, map_cons, nodup_cons]
    refine ⟨fun again => ?_, ordered.nodup⟩
    obtain ⟨m, inOrder, same⟩ := mem_map.mp again
    exact absurd same (ordered.fresh inOrder).ne
  · cases urgent with
    | true =>
      simp only [order, Log.link, if_true, filter_append, filter_cons, item]
      simpa [order, filter_append] using ordered.ordinary
    | false =>
      simp only [order, Log.link, Bool.false_eq_true, if_false, ← append_assoc]
      rw [filter_append, pairwise_append]
      refine ⟨ordered.ordinary, (pairwise_singleton _ _).filter _, fun m inOrder n isNext => ?_⟩
      obtain rfl : n = l.item false value := mem_singleton.mp (mem_of_mem_filter isNext)
      exact ordered.fresh (mem_of_mem_filter inOrder)
  · rcases (cases m).mp inOrder with rfl | before
    · -- the new element was not there before
      rcases (isLinked u).mp here with old | rfl
      · exact absurd (ordered.earlier u old _ present) (lt_irrefl _)
      · exact absurd (below _ present) (lt_irrefl _)
    · rcases (isLinked u).mp here with old | rfl
      · exact (ordered.urgent u old isUrgent m before present).trans longer
      · obtain ⟨n, inQueue, same⟩ := mem_map.mp present
        obtain rfl : n = m := inj_on_of_nodup_map ordered.nodup
          (mem_append_right _ inQueue) before same
        obtain rfl : urgent = true := isUrgent
        exact ((singleton_sublist.mpr inQueue).cons_cons _).trans (sublist_append_right _ _)

end Ordered

end Log

end UrgentQueue
