import Mathlib.Tactic

/-!
# Owners, waiters and priorities

Locks have an owner and waiting threads, and a lower priority is more urgent. `Bounded` says that no
owner is less urgent than a thread that waits for it.
-/

/-- The owners and waiters of locks, and the priorities. -/
structure LockGraph (T L P : Type*) where
  owner : L → Option T
  waiting : L → List T
  priority : T → P

namespace LockGraph

open Function

variable {T L P : Type*} [LinearOrder P] {g g' : LockGraph T L P}

/-- No owner is less urgent than who waits for it. -/
def Bounded (g : LockGraph T L P) : Prop :=
  ∀ l, ∀ o ∈ g.owner l, ∀ t ∈ g.waiting l, g.priority o ≤ g.priority t

theorem Bounded.mono (bounded : g.Bounded) (owner : ∀ l, ∀ o ∈ g'.owner l, o ∈ g.owner l)
    (waiting : ∀ l, ∀ t ∈ g'.waiting l, t ∈ g.waiting l)
    (owners : ∀ l, ∀ o ∈ g'.owner l, g'.priority o = g.priority o)
    (waiters : ∀ l, ∀ t ∈ g'.waiting l, g'.priority t = g.priority t) : g'.Bounded := by
  intro l o owns t waits
  rw [owners l o owns, waiters l t waits]
  exact bounded l o (owner l o owns) t (waiting l t waits)

variable [DecidableEq L]

/-- A thread takes a free lock. -/
def take (g : LockGraph T L P) (l : L) (t : T) : LockGraph T L P :=
  { g with owner := update g.owner l (some t) }

theorem Bounded.take (bounded : g.Bounded) {l : L} (free : g.waiting l = []) (t : T) :
    (g.take l t).Bounded := by
  intro l' o owns u waits
  by_cases same : l' = l
  · subst same
    simp [LockGraph.take, free] at waits
  · exact bounded l' o (by simpa [LockGraph.take, same] using owns) u waits

variable [DecidableEq T]

/-- A thread begins to wait, and the owner inherits. -/
def wait (g : LockGraph T L P) (l : L) (o t : T) (queue : List T) : LockGraph T L P where
  owner := g.owner
  waiting := update g.waiting l queue
  priority := update g.priority o (min (g.priority o) (g.priority t))

/-- Waiting keeps the bound if the owner gets at least the priority of all who wait. -/
theorem Bounded.wait_iff (bounded : g.Bounded) {l : L} {o t : T} (owns : o ∈ g.owner l)
    (apart : ∀ l', o ∈ g.owner l' → o ∉ g.waiting l') (other : t ≠ o) {queue : List T}
    (mem : ∀ u, u ∈ queue ↔ u = t ∨ u ∈ g.waiting l) :
    (g.wait l o t queue).Bounded ↔ (g.priority t < g.priority o →
      ∀ l', o ∈ g.waiting l' → ∀ o' ∈ g.owner l', g.priority o' ≤ g.priority t) := by
  have less (u : T) : (g.wait l o t queue).priority u ≤ g.priority u := by
    by_cases same : u = o
    · simp [LockGraph.wait, same]
    · simp [LockGraph.wait, same]
  constructor
  · intro after urgent l' waits o' owns'
    have ne : o' ≠ o := by
      rintro rfl
      exact apart l' owns' waits
    have ne' : l' ≠ l := by
      rintro rfl
      exact apart l' owns waits
    have here := after l' o' owns' o (by simpa [LockGraph.wait, ne'] using waits)
    simpa [LockGraph.wait, ne, min_eq_right urgent.le] using here
  · intro condition l' o' owns' u waits
    have old (waits' : u ∈ g.waiting l') : (g.wait l o t queue).priority o' ≤
        (g.wait l o t queue).priority u := by
      by_cases raised : u = o
      · subst raised
        have here : (g.wait l u t queue).priority o' ≤ g.priority o' := less o'
        have inherited : (g.wait l u t queue).priority u = min (g.priority u) (g.priority t) := by
          simp [LockGraph.wait]
        rw [inherited, le_min_iff]
        refine ⟨here.trans (bounded l' o' owns' u waits'), ?_⟩
        rcases lt_or_ge (g.priority t) (g.priority u) with urgent | calm
        · exact here.trans (condition urgent l' waits' o' owns')
        · exact (here.trans (bounded l' o' owns' u waits')).trans calm
      · have same : (g.wait l o t queue).priority u = g.priority u := by
          simp [LockGraph.wait, raised]
        rw [same]
        exact (less o').trans (bounded l' o' owns' u waits')
    by_cases same : l' = l
    · subst same
      obtain rfl : o = o' := Option.some_inj.mp (owns.symm.trans owns')
      rcases (mem u).mp (by simpa [LockGraph.wait] using waits) with rfl | waits'
      · simp [LockGraph.wait, other]
      · exact old waits'
    · exact old (by simpa [LockGraph.wait, same] using waits)

/-- The first waiter becomes the owner. -/
def release (g : LockGraph T L P) (l : L) (t : T) (p : P) : LockGraph T L P where
  owner := update g.owner l (g.waiting l).head?
  waiting := update g.waiting l (g.waiting l).tail
  priority := update g.priority t p

/-- Releasing keeps the bound if the new priority fits the other locks, and the first waiter the
others. -/
theorem Bounded.release_iff (bounded : g.Bounded) {l : L} {t : T} {p : P}
    (idle : ∀ l', t ∉ g.waiting l') :
    (g.release l t p).Bounded ↔
      (∀ l', l' ≠ l → t ∈ g.owner l' → ∀ u ∈ g.waiting l', p ≤ g.priority u) ∧
        ∀ w ∈ (g.waiting l).head?, ∀ u ∈ (g.waiting l).tail, g.priority w ≤ g.priority u := by
  have keeps {l' : L} {u : T} (waits : u ∈ g.waiting l') :
      (g.release l t p).priority u = g.priority u := by
    have ne : u ≠ t := by
      rintro rfl
      exact idle l' waits
    simp [LockGraph.release, ne]
  constructor
  · intro after
    refine ⟨fun l' ne owns u waits => ?_, fun w first u rest => ?_⟩
    · have here := after l' t (by simpa [LockGraph.release, ne] using owns) u
        (by simpa [LockGraph.release, ne] using waits)
      rw [keeps waits] at here
      simpa [LockGraph.release] using here
    · have here := after l w (by simpa [LockGraph.release] using first) u
        (by simpa [LockGraph.release] using rest)
      rwa [keeps (List.mem_of_mem_head? first), keeps (List.mem_of_mem_tail rest)] at here
  · rintro ⟨others, first⟩ l' o owns u waits
    by_cases same : l' = l
    · subst same
      have isFirst : o ∈ (g.waiting l').head? := by simpa [LockGraph.release] using owns
      have inRest : u ∈ (g.waiting l').tail := by simpa [LockGraph.release] using waits
      rw [keeps (List.mem_of_mem_head? isFirst), keeps (List.mem_of_mem_tail inRest)]
      exact first o isFirst u inRest
    · have owned : o ∈ g.owner l' := by simpa [LockGraph.release, same] using owns
      have waited : u ∈ g.waiting l' := by simpa [LockGraph.release, same] using waits
      rw [keeps waited]
      by_cases isT : o = t
      · rw [isT] at owned ⊢
        simpa [LockGraph.release] using others l' same owned u waited
      · simpa [LockGraph.release, isT] using bounded l' o owned u waited

end LockGraph
