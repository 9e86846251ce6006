import Mathlib.Tactic

/-!
# Programs with a trace of device events

A program emits an event each time it touches its device, and returns a value or never returns.
Cutting the power leaves the device as one of the events describes it. `Ends o Q E` says that `o`
has returned with `Q`, and that every event on the way satisfies `E`.
-/

namespace Program

/-- The events, oldest first, and the result if the program returned. -/
structure Outcome (ε σ α : Type) where
  trace : List ε
  result : Option (α × σ)

/-- A program over states `σ` that emits events `ε`. -/
def Prog (ε σ α : Type) : Type := σ → Outcome ε σ α

variable {ε σ α β : Type}

namespace Prog

/-- Return a value. -/
def ret (a : α) : Prog ε σ α := fun s => ⟨[], some (a, s)⟩

/-- Run `c`, then `f` on its result. -/
def andThen (c : Prog ε σ α) (f : α → Prog ε σ β) : Prog ε σ β := fun s =>
  match (c s).result with
  | none => ⟨(c s).trace, none⟩
  | some (a, s') => ⟨(c s).trace ++ (f a s').trace, (f a s').result⟩

instance : Monad (Prog ε σ) where
  pure := ret
  bind := andThen

/-- Read the state. -/
def state : Prog ε σ σ := fun s => ⟨[], some (s, s)⟩

/-- Change the state. -/
def update (g : σ → σ) : Prog ε σ Unit := fun s => ⟨[], some ((), g s)⟩

def emit (g : σ → ε) : Prog ε σ Unit := fun s => ⟨[g s], some ((), s)⟩

def diverge : Prog ε σ α := fun _ => ⟨[], none⟩

end Prog

/-- The program has returned with `Q`, and every event satisfies `E`. -/
def Ends (o : Outcome ε σ α) (Q : α → σ → Prop) (E : ε → Prop) : Prop :=
  ∃ a s, o.result = some (a, s) ∧ Q a s ∧ ∀ e ∈ o.trace, E e

variable {Q Q' : α → σ → Prop} {E E' : ε → Prop} {R : β → σ → Prop}

variable {o : Outcome ε σ α}

theorem Ends.mono (h : Ends o Q E) (hQ : ∀ a s, Q a s → Q' a s) (hE : ∀ e, E e → E' e) :
    Ends o Q' E' := by
  obtain ⟨a, s, ho, hq, he⟩ := h
  exact ⟨a, s, ho, hQ a s hq, fun e h => hE e (he e h)⟩

theorem Ends.post (h : Ends o Q E) (hQ : ∀ a s, Q a s → Q' a s) : Ends o Q' E :=
  h.mono hQ fun _ => id

theorem Ends.result (h : Ends o Q E) {a : α} {s : σ} (ho : o.result = some (a, s)) : Q a s := by
  obtain ⟨a', s', ho', hq, -⟩ := h
  rw [ho] at ho'
  cases ho'
  exact hq

theorem Ends.trace (h : Ends o Q E) {e : ε} (he : e ∈ o.trace) : E e := by
  obtain ⟨_, _, -, -, h⟩ := h
  exact h e he

theorem Ends.exists_trace (h : Ends o Q E) {P : ε → Prop} (hn : ¬ Ends o Q fun e => ¬ P e) :
    ∃ e ∈ o.trace, P e := by
  obtain ⟨a, s, ho, hq, -⟩ := h
  by_contra hex
  exact hn ⟨a, s, ho, hq, fun e he hp => hex ⟨e, he, hp⟩⟩

theorem ends_pure (a : α) (s : σ) : Ends ((pure a : Prog ε σ α) s) Q E ↔ Q a s := by
  constructor
  · rintro ⟨_, _, ⟨⟩, hq, -⟩
    exact hq
  · intro hq
    exact ⟨a, s, rfl, hq, by simp [pure, Prog.ret]⟩

/-- The rule of composition. -/
theorem ends_bind (c : Prog ε σ α) (f : α → Prog ε σ β) (s : σ) :
    Ends ((c >>= f) s) R E ↔ Ends (c s) (fun a s' => Ends (f a s') R E) E := by
  change Ends (Prog.andThen c f s) R E ↔ _
  unfold Prog.andThen
  rcases hc : (c s).result with _ | ⟨a, s'⟩
  · simp [Ends, hc]
  · constructor
    · rintro ⟨b, t, ho, hr, he⟩
      refine ⟨a, s', hc, ⟨b, t, ho, hr, ?_⟩, ?_⟩
      · exact fun e h => he e (List.mem_append_right _ h)
      · exact fun e h => he e (List.mem_append_left _ h)
    · rintro ⟨a', t', ho, ⟨b, t, hb, hr, he⟩, he'⟩
      rw [hc] at ho
      cases ho
      refine ⟨b, t, hb, hr, ?_⟩
      intro e h
      rcases List.mem_append.1 h with h | h
      · exact he' e h
      · exact he e h

theorem ends_state (Q : σ → σ → Prop) (s : σ) : Ends ((Prog.state : Prog ε σ σ) s) Q E ↔ Q s s := by
  constructor
  · rintro ⟨_, _, ⟨⟩, hq, -⟩
    exact hq
  · intro hq
    exact ⟨s, s, rfl, hq, by simp [Prog.state]⟩

theorem ends_update (g : σ → σ) (Q : Unit → σ → Prop) (s : σ) :
    Ends ((Prog.update g : Prog ε σ Unit) s) Q E ↔ Q () (g s) := by
  constructor
  · rintro ⟨_, _, ⟨⟩, hq, -⟩
    exact hq
  · intro hq
    exact ⟨(), g s, rfl, hq, by simp [Prog.update]⟩

/-- An event has to satisfy `E`. -/
theorem ends_emit (g : σ → ε) (Q : Unit → σ → Prop) (s : σ) :
    Ends ((Prog.emit g : Prog ε σ Unit) s) Q E ↔ E (g s) ∧ Q () s := by
  constructor
  · rintro ⟨_, _, ⟨⟩, hq, he⟩
    exact ⟨he _ (by simp [Prog.emit]), hq⟩
  · rintro ⟨he, hq⟩
    exact ⟨(), s, rfl, hq, by simpa [Prog.emit] using he⟩

theorem ends_ite {p : Prop} [Decidable p] (c d : Prog ε σ α) (s : σ) :
    Ends ((if p then c else d) s) Q E ↔ if p then Ends (c s) Q E else Ends (d s) Q E := by
  split_ifs <;> rfl

end Program
