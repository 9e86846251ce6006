import Mathlib.Tactic

/-!
# Loops

The body of a loop leaves it with a result or goes on with a new state. `Returns` says what the loop
is left with; `exec` runs a bounded number of iterations.
-/

namespace Loop

open List

variable {σ ρ : Type*} {body : σ → ρ ⊕ σ}

/-- The loop entered with a state is left with a result. -/
inductive Returns (body : σ → ρ ⊕ σ) : σ → ρ → Prop
  | leave {s : σ} {r : ρ} : body s = .inl r → Returns body s r
  | next {s s' : σ} {r : ρ} : body s = .inr s' → Returns body s' r → Returns body s r

/-- At most `n` iterations; `none` if the loop has not been left. -/
def exec (body : σ → ρ ⊕ σ) : ℕ → σ → Option ρ
  | 0, _ => none
  | n + 1, s => (body s).elim some (exec body n)

variable {s : σ} {r : ρ}

theorem exec_succ_of_inl (h : body s = .inl r) (n : ℕ) : exec body (n + 1) s = some r := by
  rw [exec, h, Sum.elim_inl]

variable {s' : σ}

theorem exec_succ_of_inr (h : body s = .inr s') (n : ℕ) : exec body (n + 1) s = exec body n s' := by
  rw [exec, h, Sum.elim_inr]

theorem returns_of_exec {n : ℕ} (h : exec body n s = some r) : Returns body s r := by
  induction n generalizing s with
  | zero => cases h
  | succ n ih =>
    cases hb : body s with
    | inl r' =>
      rw [exec_succ_of_inl hb, Option.some.injEq] at h
      exact .leave (h ▸ hb)
    | inr s' =>
      rw [exec_succ_of_inr hb] at h
      exact .next hb (ih h)

theorem exists_exec_iff : (∃ n, exec body n s = some r) ↔ Returns body s r := by
  constructor
  · rintro ⟨n, h⟩
    exact returns_of_exec h
  · intro h
    induction h with
    | leave hb => exact ⟨1, exec_succ_of_inl hb 0⟩
    | next hb _ ih =>
      obtain ⟨n, hn⟩ := ih
      exact ⟨n + 1, (exec_succ_of_inr hb n).trans hn⟩

theorem Returns.of_inr (h : Returns body s r) (hb : body s = .inr s') : Returns body s' r := by
  cases h with
  | leave h => cases h.symm.trans hb
  | next h hs => exact Sum.inr.inj (h.symm.trans hb) ▸ hs

theorem Returns.unique {r' : ρ} (h : Returns body s r) (h' : Returns body s r') : r = r' := by
  induction h with
  | leave hb =>
    cases h' with
    | leave hb' => exact Sum.inl.inj (hb.symm.trans hb')
    | next hb' _ => cases hb.symm.trans hb'
  | next hb _ ih => exact ih (h'.of_inr hb)

/-! ## Rules -/

variable {I : σ → Prop}

theorem Returns.invariant {Q : ρ → Prop} (hnext : ∀ s s', I s → body s = .inr s' → I s')
    (hleave : ∀ s r, I s → body s = .inl r → Q r) (h : Returns body s r) (hI : I s) : Q r := by
  induction h with
  | leave hb => exact hleave _ _ hI hb
  | next hb _ ih => exact ih (hnext _ _ hI hb)

/-- The loop comes from one state to another. -/
def Reaches (body : σ → ρ ⊕ σ) : σ → σ → Prop := Relation.ReflTransGen fun s s' => body s = .inr s'

theorem Reaches.refl (s : σ) : Reaches body s s := Relation.ReflTransGen.refl

theorem Reaches.next {t : σ} (hb : body s = .inr s') (h : Reaches body s' t) :
    Reaches body s t := Relation.ReflTransGen.head hb h

/-- An invariant of the iterations from admitted states, along a loop through such states. -/
theorem Reaches.invariant {P : σ → Prop} (hnext : ∀ s s', P s → I s → body s = .inr s' → I s')
    (hP : ∀ t, Reaches body s t → P t) (hI : I s) (h : Reaches body s s') : I s' := by
  induction h with
  | refl => exact hI
  | tail hst hb ih => exact hnext _ _ (hP _ hst) ih hb

theorem Returns.exists_reaches (h : Returns body s r) :
    ∃ t, Reaches body s t ∧ body t = .inl r := by
  induction h with
  | leave hb => exact ⟨_, .refl _, hb⟩
  | next hb _ ih =>
    obtain ⟨t, ht, hleave⟩ := ih
    exact ⟨t, ht.next hb, hleave⟩

theorem exists_returns {lt : σ → σ → Prop} (hlt : WellFounded lt)
    (hnext : ∀ s s', I s → body s = .inr s' → I s' ∧ lt s' s) (hI : I s) :
    ∃ r, Returns body s r := by
  induction s using hlt.induction with
  | _ s ih =>
    cases hb : body s with
    | inl r => exact ⟨r, .leave hb⟩
    | inr s' =>
      obtain ⟨hI', hlt'⟩ := hnext s s' hI hb
      obtain ⟨r, hr⟩ := ih s' hlt' hI'
      exact ⟨r, .next hb hr⟩

theorem not_returns (hnext : ∀ s, I s → ∃ s', body s = .inr s' ∧ I s') (hI : I s) (r : ρ) :
    ¬Returns body s r := by
  intro h
  induction h with
  | @leave s r hb =>
    obtain ⟨s', hb', -⟩ := hnext s hI
    cases hb.symm.trans hb'
  | @next s s' r hb _ ih =>
    obtain ⟨s'', hb', hI'⟩ := hnext s hI
    exact ih (Sum.inr.inj (hb'.symm.trans hb) ▸ hI')

theorem exists_rank {α : Type*} {lead : α → α → Prop} (hfin : {b | ∃ a, lead a b}.Finite)
    (hacyclic : ∀ a, ¬Relation.TransGen lead a a) :
    ∃ rank : α → ℕ, ∀ a b, lead a b → rank b < rank a := by
  have hreach : ∀ a, {b | Relation.TransGen lead a b}.Finite := fun a =>
    hfin.subset fun b hb => (Relation.TransGen.tail'_iff.1 hb).imp fun _ h => h.2
  refine ⟨fun a => {b | Relation.TransGen lead a b}.ncard, fun a b hab => ?_⟩
  refine Set.ncard_lt_ncard ((Set.ssubset_iff_of_subset fun c hc => ?_).2 ⟨b, ?_, ?_⟩) (hreach a)
  · exact Relation.TransGen.head hab hc
  · exact Relation.TransGen.single hab
  · exact hacyclic b

/-- The result of a loop that is left within `n` iterations. -/
def run [Inhabited ρ] (body : σ → ρ ⊕ σ) (n : ℕ) (s : σ) : ρ := (exec body n s).getD default

theorem returns_run [Inhabited ρ] {μ : σ → ℕ} (hμ : ∀ s s', body s = .inr s' → μ s' < μ s) {n : ℕ}
    (hn : μ s < n) : Returns body s (run body n s) := by
  have hexec : ∃ r, exec body n s = some r := by
    induction n generalizing s with
    | zero => omega
    | succ n ih =>
      cases hb : body s with
      | inl r => exact ⟨r, exec_succ_of_inl hb n⟩
      | inr s' =>
        obtain ⟨r, hr⟩ := ih (s := s') (by have := hμ s s' hb; omega)
        exact ⟨r, (exec_succ_of_inr hb n).trans hr⟩
  obtain ⟨r, hr⟩ := hexec
  rw [run, hr, Option.getD_some]
  exact returns_of_exec hr

section Each

variable {α : Type*}

/-- A loop over a list. -/
def each (step : α → σ → ρ ⊕ σ) : List α → σ → ρ ⊕ σ
  | [], s => .inr s
  | x :: xs, s => (step x s).elim .inl (each step xs)

@[simp] theorem each_nil (step : α → σ → ρ ⊕ σ) (s : σ) : each step [] s = .inr s := rfl

variable {step : α → σ → ρ ⊕ σ}

theorem each_cons_of_inl {x : α} {s : σ} {r : ρ} (h : step x s = .inl r) (xs : List α) :
    each step (x :: xs) s = .inl r := by
  rw [each, h, Sum.elim_inl]

theorem each_cons_of_inr {x : α} {s s' : σ} (h : step x s = .inr s') (xs : List α) :
    each step (x :: xs) s = each step xs s' := by
  rw [each, h, Sum.elim_inr]

theorem each_append (step : α → σ → ρ ⊕ σ) (xs ys : List α) (s : σ) :
    each step (xs ++ ys) s = (each step xs s).elim .inl (each step ys) := by
  induction xs generalizing s with
  | nil => rfl
  | cons x xs ih =>
    cases h : step x s with
    | inl r => rw [cons_append, each_cons_of_inl h, each_cons_of_inl h, Sum.elim_inl]
    | inr s' => rw [cons_append, each_cons_of_inr h, each_cons_of_inr h, ih]

theorem each_append_of_skip {xs : List α} {s : σ} (h : ∀ x ∈ xs, step x s = .inr s) (ys : List α) :
    each step (xs ++ ys) s = each step ys s := by
  induction xs with
  | nil => rfl
  | cons x xs ih =>
    rw [cons_append, each_cons_of_inr (h x mem_cons_self)]
    exact ih fun y hy => h y (mem_cons_of_mem x hy)

end Each

end Loop
