import Mathlib.Data.List.ReduceOption
import Mathlib.Tactic

/-!
# Runs of a step function

`Along step allowed s inputs` says that every step of the run from `s` is allowed in the state in
which it is taken.
-/

namespace Run

open List

variable {σ τ ι : Type*}

/-- The state after the inputs. -/
def run (step : σ → ι → σ) (s : σ) (inputs : List ι) : σ := inputs.foldl step s

@[simp] theorem run_nil (step : σ → ι → σ) (s : σ) : run step s [] = s := rfl

@[simp] theorem run_cons (step : σ → ι → σ) (s : σ) (i : ι) (inputs : List ι) :
    run step s (i :: inputs) = run step (step s i) inputs := rfl

theorem run_append (step : σ → ι → σ) (s : σ) (xs ys : List ι) :
    run step s (xs ++ ys) = run step (run step s xs) ys := foldl_append

/-- Every step of the run is allowed. -/
def Along (step : σ → ι → σ) (allowed : σ → ι → Prop) : σ → List ι → Prop
  | _, [] => True
  | s, i :: inputs => allowed s i ∧ Along step allowed (step s i) inputs

@[simp] theorem along_nil (step : σ → ι → σ) (allowed : σ → ι → Prop) (s : σ) :
    Along step allowed s [] := trivial

variable {step : σ → ι → σ} {allowed : σ → ι → Prop} {s : σ} {inputs : List ι}

@[simp] theorem along_cons {i : ι} :
    Along step allowed s (i :: inputs) ↔ allowed s i ∧ Along step allowed (step s i) inputs :=
  Iff.rfl

instance (step : σ → ι → σ) (allowed : σ → ι → Prop) [∀ s i, Decidable (allowed s i)] (s : σ)
    (inputs : List ι) : Decidable (Along step allowed s inputs) := by
  induction inputs generalizing s with
  | nil => exact .isTrue trivial
  | cons i inputs ih => exact @instDecidableAnd _ _ _ (ih _)

theorem along_append {xs ys : List ι} :
    Along step allowed s (xs ++ ys) ↔
      Along step allowed s xs ∧ Along step allowed (run step s xs) ys := by
  induction xs generalizing s with
  | nil => simp
  | cons x xs ih => rw [cons_append, along_cons, along_cons, run_cons, ih, and_assoc]

variable {P Q : σ → ι → Prop}

theorem Along.and (hP : Along step P s inputs) (hQ : Along step Q s inputs) :
    Along step (fun s i => P s i ∧ Q s i) s inputs := by
  induction inputs generalizing s with
  | nil => trivial
  | cons i inputs ih => exact ⟨⟨hP.1, hQ.1⟩, ih hP.2 hQ.2⟩

theorem along_of_forall {P : ι → Prop} (h : ∀ i ∈ inputs, P i) (s : σ) :
    Along step (fun _ i => P i) s inputs := by
  induction inputs generalizing s with
  | nil => trivial
  | cons i inputs ih =>
    exact ⟨h i mem_cons_self, ih (fun j hj => h j (mem_cons_of_mem i hj)) _⟩

/-- The simulation rule. -/
theorem Along.simulation {step' : τ → ι → τ} {R : σ → τ → Prop}
    (hstep : ∀ s t i, allowed s i → R s t → R (step s i) (step' t i)) {t : τ}
    (h : Along step allowed s inputs) (hR : R s t) :
    R (run step s inputs) (run step' t inputs) := by
  induction inputs generalizing s t with
  | nil => exact hR
  | cons i inputs ih => exact ih h.2 (hstep s t i h.1 hR)

variable {I : σ → Prop}

/-- The invariant rule for restricted runs. -/
theorem Along.invariant (hstep : ∀ s i, allowed s i → I s → I (step s i))
    (h : Along step allowed s inputs) (hI : I s) : I (run step s inputs) := by
  induction inputs generalizing s with
  | nil => exact hI
  | cons i inputs ih => exact ih h.2 (hstep s i h.1 hI)

theorem Along.of_invariant (hstep : ∀ s i, allowed s i → I s → I (step s i))
    (himp : ∀ s i, allowed s i → I s → P s i) (h : Along step allowed s inputs) (hI : I s) :
    Along step P s inputs := by
  induction inputs generalizing s with
  | nil => trivial
  | cons i inputs ih => exact ⟨himp s i h.1 hI, ih h.2 (hstep s i h.1 hI)⟩

/-- Properties that agree under an invariant hold along the same runs. -/
theorem along_congr (hPQ : ∀ s i, I s → (P s i ↔ Q s i))
    (hstep : ∀ s i, I s → Q s i → I (step s i)) (hI : I s) :
    Along step P s inputs ↔ Along step Q s inputs := by
  induction inputs generalizing s with
  | nil => exact Iff.rfl
  | cons i inputs ih =>
    rw [along_cons, along_cons, hPQ s i hI]
    exact and_congr_right fun hQ => ih (hstep s i hI hQ)

/-- The invariant rule. -/
theorem run_invariant (hstep : ∀ s i, I s → I (step s i)) (hI : I s) (inputs : List ι) :
    I (run step s inputs) := by
  induction inputs generalizing s with
  | nil => exact hI
  | cons i inputs ih => exact ih (hstep s i hI)

/-- A step that can fail. -/
def lift (step : σ → ι → Option σ) (s : Option σ) (i : ι) : Option σ := s.bind (step · i)

variable {step : σ → ι → Option σ}

/-- The invariant rule for partial steps. -/
theorem lift_invariant
    (hstep : ∀ s i s', I s → step s i = some s' → I s') (hI : I s) (inputs : List ι) :
    ∀ s' ∈ run (lift step) (some s) inputs, I s' := by
  apply run_invariant (I := fun o => ∀ s' ∈ o, I s')
  · intro o i hO s' hs'
    obtain ⟨t, ht, hstep'⟩ := Option.bind_eq_some_iff.mp hs'
    exact hstep t i s' (hO t ht) hstep'
  · rintro _ ⟨⟩
    exact hI

theorem Along.lift_invariant
    (hstep : ∀ s i s', allowed s i → I s → step s i = some s' → I s')
    (h : Along (lift step) (fun o i => ∀ s ∈ o, allowed s i) (some s) inputs) (hI : I s) :
    ∀ s' ∈ run (lift step) (some s) inputs, I s' := by
  apply Along.invariant (I := fun o => ∀ s' ∈ o, I s') ?_ h
  · rintro _ ⟨⟩
    exact hI
  · intro o i hallowed hO s' hs'
    obtain ⟨t, ht, hstep'⟩ := Option.bind_eq_some_iff.mp hs'
    exact hstep t i s' (hallowed t ht) (hO t ht) hstep'

theorem run_lift_none (step : σ → ι → Option σ) (inputs : List ι) :
    run (lift step) none inputs = none := by
  induction inputs with
  | nil => rfl
  | cons i inputs ih => exact ih

/-- A property that each step keeps exactly under a condition holds all along exactly if every step
meets the condition. -/
theorem along_lift_iff {P : σ → Prop} {A : ι → Prop}
    (hstep : ∀ s i s', A i → I s → step s i = some s' → I s' ∧ (P s → (P s' ↔ Q s i))) (hI : I s)
    (hP : P s) (hA : ∀ i ∈ inputs, A i) (h : run (lift step) (some s) inputs ≠ none) :
    Along (lift step) (fun o i => ∀ s' ∈ lift step o i, P s') (some s) inputs ↔
      Along (lift step) (fun o i => ∀ s ∈ o, Q s i) (some s) inputs := by
  induction inputs generalizing s with
  | nil => exact Iff.rfl
  | cons i inputs ih =>
    rw [run_cons] at h
    rw [along_cons, along_cons]
    cases hs' : step s i with
    | none => exact absurd (run_lift_none step inputs) (by simpa [lift, hs'] using h)
    | some s' =>
      have hlift : lift step (some s) i = some s' := hs'
      rw [hlift] at h ⊢
      obtain ⟨hI', hPQ⟩ := hstep s i s' (hA i mem_cons_self) hI hs'
      have hrest (hP' : P s') := ih hI' hP' (fun j hj => hA j (mem_cons_of_mem i hj)) h
      simp only [Option.mem_some_iff, forall_eq', ← hPQ hP]
      exact and_congr_right hrest

section Replies

variable {ρ ρ' : Type*}

/-- The replies of a run. -/
def replies (step : σ → ι → ρ × σ) : σ → List ι → List ρ
  | _, [] => []
  | s, i :: inputs => (step s i).1 :: replies step (step s i).2 inputs

theorem replies_append (step : σ → ι → ρ × σ) (s : σ) (xs ys : List ι) :
    replies step s (xs ++ ys) =
      replies step s xs ++ replies step (run (fun s i => (step s i).2) s xs) ys := by
  induction xs generalizing s with
  | nil => rfl
  | cons i xs ih => rw [cons_append, replies, replies, ih, cons_append, run_cons]

@[simp] theorem length_replies (step : σ → ι → ρ × σ) (s : σ) (inputs : List ι) :
    (replies step s inputs).length = inputs.length := by
  induction inputs generalizing s with
  | nil => rfl
  | cons i inputs ih => rw [replies, length_cons, ih, length_cons]

theorem replies_eq_take (step : σ → ι → ρ × σ) (s : σ) (xs ys : List ι) :
    replies step s xs = (replies step s (xs ++ ys)).take xs.length := by
  rw [replies_append, take_left' (length_replies step s xs)]

/-- Under a relation of two systems that the steps keep, the replies correspond. -/
theorem Along.replies_eq_map {step : σ → ι → ρ × σ} {step' : τ → ι → ρ' × τ}
    {allowed : σ → ι → Prop} {f : ρ' → ρ} {R : σ → τ → Prop}
    (hstep : ∀ s t i, allowed s i → R s t →
      (step s i).1 = f (step' t i).1 ∧ R (step s i).2 (step' t i).2) {s : σ} {t : τ}
    {inputs : List ι} (h : Along (fun s i => (step s i).2) allowed s inputs) (hR : R s t) :
    replies step s inputs = (replies step' t inputs).map f := by
  induction inputs generalizing s t with
  | nil => rfl
  | cons i inputs ih =>
    obtain ⟨hreply, hR'⟩ := hstep s t i h.1 hR
    rw [replies, replies, map_cons, hreply, ih h.2 hR']

theorem reduceOption_replies_cons (step : σ → ι → Option ρ × σ) (s : σ) (i : ι) (inputs : List ι) :
    (replies step s (i :: inputs)).reduceOption =
      (step s i).1.toList ++ (replies step (step s i).2 inputs).reduceOption := by
  rw [replies, ← singleton_append, reduceOption_append, reduceOption_singleton]

/-- A step with a reply that can fail. -/
def liftReply (step : σ → ι → Option (ρ × σ)) (s : Option σ) (i : ι) : Option ρ × Option σ :=
  ((s.bind (step · i)).map Prod.fst, (s.bind (step · i)).map Prod.snd)

end Replies

end Run
