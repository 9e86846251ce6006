import Tm4cPilot.Lib.Loop

/-!
# Enumerations without an iterator

A function leads from the token of an element to the next element. It enumerates a list exactly when
each element leads to the following one, and the tokens are then distinct.
-/

namespace Enumeration

open List

variable {ε τ : Type*} (token : ε → τ) (next : τ → Option ε)

/-- Take the next element. -/
def body (s : Option ε × List ε) : List ε ⊕ (Option ε × List ε) :=
  match s.1 with
  | none => .inl s.2
  | some e => .inr (next (token e), s.2 ++ [e])

/-- Each element leads to the following one. -/
def Follows (l : List ε) : Prop :=
  ∀ before e after, l = before ++ e :: after → next (token e) = after.head?

variable {token next}

theorem follows_nil : Follows token next [] := by
  intro before e after h
  simp at h

variable {l : List ε}

theorem follows_cons {e : ε} :
    Follows token next (e :: l) ↔ next (token e) = l.head? ∧ Follows token next l := by
  constructor
  · intro h
    refine ⟨h [] e l rfl, fun before e' after hl => h (e :: before) e' after ?_⟩
    rw [hl, cons_append]
  · rintro ⟨he, hl⟩ before e' after h
    cases before with
    | nil =>
      obtain ⟨rfl, rfl⟩ := cons.inj h
      exact he
    | cons _ before => exact hl before e' after (cons.inj h).2

theorem Follows.of_append {xs ys : List ε} (h : Follows token next (xs ++ ys)) :
    Follows token next ys := by
  intro before e after hys
  apply h (xs ++ before) e after
  rw [hys, append_assoc]

theorem Follows.flatMap {α : Type*} {f : α → List ε} {l : List α}
    (h : ∀ before x after, l = before ++ x :: after → Follows token next (after.flatMap f) →
    Follows token next (f x ++ after.flatMap f)) : Follows token next (l.flatMap f) := by
  induction l with
  | nil => exact follows_nil
  | cons x l ih =>
    refine h [] x l rfl (ih fun before y after hl => h (x :: before) y after ?_)
    rw [hl, cons_append]

theorem Follows.eq_of_token_eq {e e' : ε} {l' : List ε} (h : Follows token next (e :: l))
    (h' : Follows token next (e' :: l')) (same : token e = token e') : l = l' := by
  induction l generalizing e e' l' with
  | nil =>
    have := (follows_cons.1 h).1.symm.trans ((congrArg next same).trans (follows_cons.1 h').1)
    cases l' with
    | nil => rfl
    | cons _ _ => cases this
  | cons x l ih =>
    have := (follows_cons.1 h).1.symm.trans ((congrArg next same).trans (follows_cons.1 h').1)
    cases l' with
    | nil => cases this
    | cons x' l' =>
      obtain rfl : x = x' := Option.some.inj this
      rw [ih (follows_cons.1 h).2 (follows_cons.1 h').2 rfl]

theorem Follows.nodup (h : Follows token next l) : (l.map token).Nodup := by
  induction l with
  | nil => exact nodup_nil
  | cons e l ih =>
    have tail := (follows_cons.1 h).2
    rw [map_cons, nodup_cons]
    refine ⟨fun again => ?_, ih tail⟩
    obtain ⟨e', mem, same⟩ := mem_map.1 again
    obtain ⟨before, after, rfl⟩ := append_of_mem mem
    have length := congrArg length (h.eq_of_token_eq tail.of_append same.symm)
    simp at length
    omega

/-- The loop lists what starts with the first element and where each leads to the next. -/
theorem returns_iff {first : Option ε} :
    Loop.Returns (body token next) (first, []) l ↔ first = l.head? ∧ Follows token next l := by
  have general : ∀ s l, Loop.Returns (body token next) s l ↔
      ∃ es, l = s.2 ++ es ∧ s.1 = es.head? ∧ Follows token next es := by
    intro s l
    constructor
    · intro h
      induction h with
      | @leave s r hb =>
        obtain ⟨first, acc⟩ := s
        cases first with
        | none =>
          obtain rfl := Sum.inl.inj hb
          exact ⟨[], (append_nil _).symm, rfl, follows_nil⟩
        | some e => cases hb
      | @next s s' r hb _ ih =>
        obtain ⟨first, acc⟩ := s
        cases first with
        | none => cases hb
        | some e =>
          obtain rfl := Sum.inr.inj hb
          obtain ⟨es, rfl, head, follows⟩ := ih
          exact ⟨e :: es, by simp, rfl, follows_cons.2 ⟨head, follows⟩⟩
    · rintro ⟨es, rfl, head, follows⟩
      obtain ⟨first, acc⟩ := s
      induction es generalizing first acc with
      | nil =>
        obtain rfl : first = none := head
        exact .leave (by simp [body])
      | cons e es ih =>
        obtain rfl : first = some e := head
        refine .next rfl ?_
        obtain ⟨step, follows⟩ := follows_cons.1 follows
        simpa using ih follows (next (token e)) (acc ++ [e]) step
  simp [general]

end Enumeration
