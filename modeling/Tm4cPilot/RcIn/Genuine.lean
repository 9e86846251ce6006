import Tm4cPilot.RcIn.Decoder

/-!
# Values of the RC input

The pin may have any edges at any times.  A value that is stored is the time between two consecutive
falling edges, modulo 2¹⁶.
-/

namespace Tm4cPilot.RcIn

open List Run Bool

/-- The level after an edge, the time before it, and the time stored. -/
structure PinEdge where
  isPositive : Bool
  delay : ℕ
  stamp : UInt64
  deriving DecidableEq, Repr

/-- The decoder, with the edges so far, the last one first. -/
structure Pin where
  now : ℕ
  past : List (Bool × ℕ)
  decoder : Decoder

namespace Pin

/-- The pin at its start. -/
def init (now : ℕ) : Pin := ⟨now, [], Decoder.init⟩

def step (p : Pin) (e : PinEdge) : Pin where
  now := p.now + e.delay
  past := (e.isPositive, p.now + e.delay) :: p.past
  decoder := (p.decoder.pinIntHandler
    ⟨e.isPositive, UInt64.ofNat (p.now + e.delay), e.stamp⟩).2

end Pin

/-- The times of the falling edges. -/
def falls (past : List (Bool × ℕ)) : List ℕ := (past.filter (fun e => !e.1)).map Prod.snd

/-- The times between consecutive ones. -/
def intervals : List ℕ → List ℕ
  | c :: a :: times => (c - a) :: intervals (a :: times)
  | _ => []

/-- The value is zero or such a time. -/
def Genuine (past : List (Bool × ℕ)) (v : UInt16) : Prop :=
  v ≠ 0 → v.toNat ∈ intervals (falls past)
deriving Decidable

theorem genuine_zero (past : List (Bool × ℕ)) : Genuine past 0 := fun ne => absurd rfl ne

theorem Genuine.cons {past : List (Bool × ℕ)} {v : UInt16} (genuine : Genuine past v)
    (e : Bool × ℕ) : Genuine (e :: past) v := by
  intro ne
  have mem := genuine ne
  obtain ⟨isPositive, t⟩ := e
  cases isPositive with
  | true => exact mem
  | false =>
    change v.toNat ∈ intervals (t :: falls past)
    cases times : falls past with
    | nil => rw [times] at mem; exact absurd mem not_mem_nil
    | cons a _ => rw [times] at mem; exact mem_cons_of_mem _ mem

namespace Decoder

/-- The values of the decoder have a property. -/
def Stores (P : UInt16 → Prop) (d : Decoder) : Prop :=
  (∀ i, P (d.pulseArrayTemp i)) ∧ ∀ v ∈ d.rcInData.values, P v

variable {P Q : UInt16 → Prop} {d : Decoder}

theorem stores_init (zero : P 0) : init.Stores P := by
  refine ⟨fun _ => zero, fun v mem => ?_⟩
  rw [eq_of_mem_replicate mem]
  exact zero

theorem Stores.mono (stores : d.Stores P) (imp : ∀ v, P v → Q v) : d.Stores Q :=
  ⟨fun i => imp _ (stores.1 i), fun v mem => imp v (stores.2 v mem)⟩

theorem Stores.copyData (stores : d.Stores P) (zero : P 0) (stamp : UInt64) :
    (d.copyData stamp).2.Stores P := by
  rw [Decoder.copyData]
  split_ifs with space
  · have temp : ∀ i, P (if i < d.pulseIndex then d.pulseArrayTemp i else 0) := by
      intro i
      split_ifs
      exacts [stores.1 i, zero]
    refine ⟨temp, fun v mem => ?_⟩
    obtain ⟨i, _, rfl⟩ := mem_map.mp mem
    exact temp i
  · exact stores

theorem Stores.pinIntHandler (stores : d.Stores P) (zero : P 0) (e : Edge)
    (value : d.curState = .matchNegative → e.isPositive = false → d.pulse e.tick < endPulse →
    P (d.pulse e.tick + d.lastNegativePulse).toUInt16) : (d.pinIntHandler e).2.Stores P := by
  rw [Decoder.pinIntHandler]
  cases state : d.curState with
  | matchEndPositive => dsimp only; split_ifs <;> exact stores
  | matchEndNegative => dsimp only; split_ifs <;> exact stores
  | matchPositive => dsimp only; split_ifs <;> exact stores
  | matchNegative =>
    dsimp only
    by_cases rises : e.isPositive
    · rw [if_pos rises]
      exact stores
    rw [if_neg rises]
    by_cases sync : endPulse ≤ d.pulse e.tick
    · rw [if_pos sync]
      exact Stores.copyData (d := { d with lastTick := e.tick.toUInt32.toUInt64 }) stores zero _
    -- both exits go on with the value in the array
    have stored : Stores P { d with
        pulseArrayTemp := Function.update d.pulseArrayTemp d.pulseIndex
          (d.pulse e.tick + d.lastNegativePulse).toUInt16 } :=
      ⟨(Function.forall_update_iff _ fun _ v => P v).mpr
        ⟨value state (eq_false_iff.mpr rises) (UInt32.not_le.mp sync),
          fun i _ => stores.1 i⟩, stores.2⟩
    split_ifs
    · refine Stores.copyData ?_ zero _
      exact stored
    · exact stored

end Decoder

/-! ## What the decoder remembers -/

/-- The registers are those of the last edges. -/
def Recorded (d : Decoder) (now : ℕ) (past : List (Bool × ℕ)) : Prop :=
  match d.curState with
  | .matchPositive => ∃ fall rest, past = (false, fall) :: rest ∧ fall ≤ now ∧
      d.lastTick = (UInt64.ofNat fall).toUInt32.toUInt64
  | .matchNegative => ∃ rise fall rest, past = (true, rise) :: (false, fall) :: rest ∧
      fall ≤ rise ∧ rise ≤ now ∧ d.lastTick = (UInt64.ofNat rise).toUInt32.toUInt64 ∧
      d.lastNegativePulse.toNat = (rise - fall) % 2 ^ 32
  | _ => True

theorem recorded_of_waiting {d : Decoder} (waiting : d.curState = .matchEndPositive) (now : ℕ)
    (past : List (Bool × ℕ)) : Recorded d now past := by
  rw [Recorded, waiting]
  trivial

theorem Recorded.pinIntHandler {d : Decoder} {now : ℕ} {past : List (Bool × ℕ)}
    (recorded : Recorded d now past) (e : PinEdge) :
    Recorded (d.pinIntHandler ⟨e.isPositive, UInt64.ofNat (now + e.delay), e.stamp⟩).2
      (now + e.delay) ((e.isPositive, now + e.delay) :: past) := by
  obtain ⟨isPositive, delay, stamp⟩ := e
  simp only [Decoder.pinIntHandler]
  cases state : d.curState with
  | matchEndPositive =>
    split_ifs <;> trivial
  | matchEndNegative =>
    dsimp only
    split_ifs with rises sync
    · trivial
    · trivial
    · rw [not_eq_true] at rises
      subst rises
      exact ⟨_, past, rfl, le_rfl, rfl⟩
  | matchPositive =>
    rw [Recorded, state] at recorded
    obtain ⟨fall, rest, rfl, le, last⟩ := recorded
    dsimp only
    split_ifs with falls
    · trivial
    · rw [not_eq_true, not_eq_false'] at falls
      subst falls
      exact ⟨_, fall, rest, rfl, le.trans (Nat.le_add_right ..), le_rfl, rfl,
        d.pulse_eq last (le.trans (Nat.le_add_right ..))⟩
  | matchNegative =>
    dsimp only
    split_ifs with rises sync full
    · trivial
    · exact recorded_of_waiting (Decoder.curState_copyData ..) ..
    · exact recorded_of_waiting (Decoder.curState_copyData ..) ..
    · rw [not_eq_true] at rises
      subst rises
      exact ⟨_, past, rfl, le_rfl, rfl⟩

theorem toNat_value {d : Decoder} {rise fall t : ℕ} (fall_le : fall ≤ rise) (rise_le : rise ≤ t)
    (last : d.lastTick = (UInt64.ofNat rise).toUInt32.toUInt64)
    (low : d.lastNegativePulse.toNat = (rise - fall) % 2 ^ 32) :
    (d.pulse (UInt64.ofNat t) + d.lastNegativePulse).toUInt16.toNat = (t - fall) % 65536 := by
  rw [UInt32.toNat_toUInt16, UInt32.toNat_add, d.pulse_eq last rise_le, low]
  omega

namespace Pin

/-- A channel ends less than 2¹⁶ µs, or a multiple of it, after the falling edge before. -/
def Measurable (p : Pin) (e : PinEdge) : Prop :=
  match p.decoder.curState, e.isPositive, p.past with
  | .matchNegative, false, rise :: fall :: _ =>
    (p.now + e.delay - rise.2) % 2 ^ 32 < 2500 →
      p.now + e.delay - fall.2 < 65536 ∨ 65536 ∣ p.now + e.delay - fall.2
  | _, _, _ => True

instance (p : Pin) (e : PinEdge) : Decidable (p.Measurable e) := by
  rw [Measurable]
  split <;> infer_instance

/-- The decoder has measured the last edges. -/
structure Sound (p : Pin) : Prop where
  recorded : Recorded p.decoder p.now p.past
  stores : p.decoder.Stores (Genuine p.past)

theorem Sound.step {p : Pin} (sound : p.Sound) {e : PinEdge} (measurable : p.Measurable e) :
    (p.step e).Sound := by
  refine ⟨sound.recorded.pinIntHandler e, Decoder.Stores.pinIntHandler
    (sound.stores.mono fun v genuine => genuine.cons _) (genuine_zero _) _ ?_⟩
  intro state (falls : e.isPositive = false) short
  have recorded := sound.recorded
  rw [Recorded, state] at recorded
  obtain ⟨rise, fall, rest, past, fall_le, rise_le, last, low⟩ := recorded
  have rise_le' := rise_le.trans (Nat.le_add_right p.now e.delay)
  rw [Measurable, state, falls, past] at measurable
  rw [UInt32.lt_iff_toNat_lt, p.decoder.pulse_eq last rise_le'] at short
  have value := toNat_value fall_le rise_le' last low
  intro ne
  rw [falls, past]
  change _ ∈ intervals ((p.now + e.delay) :: fall :: _)
  have small : p.now + e.delay - fall < 65536 := by
    refine (measurable short).resolve_right fun multiple => ne (UInt16.toNat.inj ?_)
    rw [value, Nat.mod_eq_zero_of_dvd multiple]
    rfl
  rw [value, Nat.mod_eq_of_lt small]
  exact mem_cons_self

/-- A value that is not zero is the time between two consecutive falling edges. -/
theorem values_genuine (now : ℕ) (edges : List PinEdge)
    (measurable : Run.Along step Measurable (init now) edges) :
    ∀ v ∈ (run step (init now) edges).decoder.rcInData.values, v ≠ 0 →
      v.toNat ∈ intervals (falls (run step (init now) edges).past) := by
  have start : (init now).Sound := ⟨trivial, Decoder.stores_init (genuine_zero _)⟩
  exact (measurable.invariant (fun p e allowed sound => sound.step allowed) start).stores.2

/-- An ordinary frame. -/
def ordinary : List PinEdge :=
  [⟨true, 0, 0⟩, ⟨false, 10000, 0⟩, ⟨true, 400, 0⟩, ⟨false, 1100, 0⟩, ⟨true, 400, 0⟩,
    ⟨false, 10000, 0⟩]

theorem values_genuine_ordinary :
    1500 ∈ (run step (init 0) ordinary).decoder.rcInData.values ∧
      ∀ v ∈ (run step (init 0) ordinary).decoder.rcInData.values, v ≠ 0 →
        v.toNat ∈ intervals (falls (run step (init 0) ordinary).past) :=
  ⟨by decide +kernel, values_genuine 0 ordinary (by decide +kernel)⟩

/-- A channel of 67000 µs. -/
def dropout : List PinEdge :=
  [⟨true, 0, 0⟩, ⟨false, 10000, 0⟩, ⟨true, 66000, 0⟩, ⟨false, 1000, 0⟩, ⟨true, 400, 0⟩,
    ⟨false, 10000, 0⟩]

/-- The falling edges are 67000 µs apart, and 1464 is published. -/
theorem dropout_published :
    intervals (falls (run step (init 0) dropout).past) = [10400, 67000] ∧
      1464 ∈ (run step (init 0) dropout).decoder.rcInData.values ∧
      ¬ ∀ v ∈ (run step (init 0) dropout).decoder.rcInData.values, v ≠ 0 →
        v.toNat ∈ intervals (falls (run step (init 0) dropout).past) := by
  decide +kernel

end Pin

end Tm4cPilot.RcIn
