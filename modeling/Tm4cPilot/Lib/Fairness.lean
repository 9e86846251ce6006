import Tm4cPilot.Lib.Run

/-!
# Infinite runs and weak fairness

An action is treated fairly if it is taken again and again as long as it stays enabled. A rank that
no step increases and that fair actions decrease then leads to a goal.
-/

namespace Fairness

open Run List

variable {σ ι α : Type*}

/-- An infinite run; nothing happens without an input. -/
structure Path (step : σ → ι → Option σ) (state : ℕ → σ) (input : ℕ → Option ι) : Prop where
  idle : ∀ n, input n = none → state (n + 1) = state n
  moves : ∀ n i, input n = some i → step (state n) i = some (state (n + 1))

theorem Path.invariant {step : σ → ι → Option σ} {state : ℕ → σ} {input : ℕ → Option ι}
    {I : σ → Prop} (path : Path step state input) (allowed : σ → ι → Prop)
    (hallowed : ∀ n i, input n = some i → allowed (state n) i)
    (hstep : ∀ s i s', allowed s i → I s → step s i = some s' → I s') (hI : I (state 0)) (n : ℕ) :
    I (state n) := by
  induction n with
  | zero => exact hI
  | succ n ih =>
    cases h : input n with
    | none => rwa [path.idle n h]
    | some i => exact hstep _ i _ (hallowed n i h) ih (path.moves n i h)

section Finite

variable {step : σ → ι → Option σ} {s : σ} {inputs : List ι}

/-- The states of a finite run. -/
def states (step : σ → ι → Option σ) (s : σ) (inputs : List ι) (n : ℕ) : σ :=
  (Run.run (Run.lift step) (some s) (inputs.take n)).getD s

theorem run_take (runs : run (lift step) (some s) inputs ≠ none) (n : ℕ) :
    run (lift step) (some s) (inputs.take n) = some (states step s inputs n) := by
  obtain ⟨t, ht⟩ : ∃ t, run (lift step) (some s) (inputs.take n) = some t := by
    rw [← Option.ne_none_iff_exists']
    intro none
    rw [← take_append_drop n inputs, run_append, none, run_lift_none] at runs
    exact runs rfl
  rw [states, ht, Option.getD_some]

theorem path_states (runs : run (lift step) (some s) inputs ≠ none) :
    Path step (states step s inputs) (fun n => inputs[n]?) where
  idle n h := by
    have long := getElem?_eq_none_iff.mp h
    rw [states, states, take_of_length_le long, take_of_length_le (by omega)]
  moves n i h := by
    obtain ⟨lt, rfl⟩ := List.getElem?_eq_some_iff.mp h
    have next := run_take runs (n + 1)
    rwa [← take_append_getElem lt, run_append, run_take runs n] at next

end Finite

/-- What stays enabled is taken. -/
def WeaklyFair (enabled taken : ℕ → Prop) : Prop :=
  ∀ n, (∀ m, n ≤ m → enabled m) → ∃ m, n ≤ m ∧ taken m

theorem WeaklyFair.strengthen {enabled taken P : ℕ → Prop} (fair : WeaklyFair enabled taken)
    (stronger : ∀ n, P n → enabled n) : WeaklyFair P (fun n => taken n ∧ P n) := by
  intro n stays
  obtain ⟨m, le, taken⟩ := fair n fun m le => stronger m (stays m le)
  exact ⟨m, le, taken, stays m le⟩

/-- Until the goal is reached, some fair action stays enabled until it lowers the rank. -/
theorem eventually_of_rank {enabled taken : α → ℕ → Prop}
    (fair : ∀ a, WeaklyFair (enabled a) (taken a)) {P goal : ℕ → Prop} (rank : ℕ → ℕ)
    (keeps : ∀ n, P n → ¬goal n → P (n + 1) ∧
    (rank (n + 1) < rank n ∨ rank (n + 1) = rank n ∧ ∀ a, enabled a n → enabled a (n + 1)))
    (helps : ∀ n, P n → ∃ a, enabled a n)
    (decreases : ∀ n a, P n → ¬goal n → taken a n → rank (n + 1) < rank n) {start : ℕ}
    (begins : P start) : ∃ n, start ≤ n ∧ goal n := by
  induction h : rank start using Nat.strong_induction_on generalizing start with
  | _ r ih =>
    subst h
    by_contra! never
    obtain ⟨a, enabledStart⟩ := helps start begins
    -- the rank does not decrease, by the induction hypothesis
    have lower (n : ℕ) (le : start ≤ n) (hP : P n) : ¬rank n < rank start := by
      intro less
      obtain ⟨m, le', reached⟩ := ih (rank n) less hP rfl
      exact never m (le.trans le') reached
    have stays (n : ℕ) (le : start ≤ n) : P n ∧ rank n = rank start ∧ enabled a n := by
      induction n, le using Nat.le_induction with
      | base => exact ⟨begins, rfl, enabledStart⟩
      | succ n le ih' =>
        obtain ⟨hP, same, enabled⟩ := ih'
        obtain ⟨hP', less | ⟨same', still⟩⟩ := keeps n hP (never n le)
        · exact absurd (same ▸ less) (lower (n + 1) (by omega) hP')
        · exact ⟨hP', same'.trans same, still a enabled⟩
    obtain ⟨n, le, taken⟩ := fair a start fun m le => (stays m le).2.2
    obtain ⟨hP, same, -⟩ := stays n le
    have less := decreases n a hP (never n le) taken
    exact lower (n + 1) (by omega) (keeps n hP (never n le)).1 (same ▸ less)

end Fairness
