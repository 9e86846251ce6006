import Mathlib.Tactic

/-!
# Repeated relay and servo events

`do_repeat_relay` sets up two events for each cycle, and `update_events` makes one when half a cycle
has passed.  Their number and the delay are kept in 16 bits.
-/

namespace Tm4cPilot.ServoRelay

open List UInt32 Nat

/-- What the events do. -/
inductive EventType where
  | relay | servo
  deriving DecidableEq

/-- The event control state, with `repeat` as `repeats`. -/
structure Events where
  type : EventType
  startTimeMs : UInt32
  delayMs : UInt16
  repeats : ℤ
  channel : UInt8
  servoValue : UInt16

/-- No event is set up. -/
def Events.initial : Events := ⟨.relay, 0, 0, 0, 0, 0⟩

/-- The outputs of an event. -/
inductive Output where
  | toggle (relayNum : UInt8)
  | setOutputPwm (channel : UInt8) (pwm : UInt16)
  deriving DecidableEq

/-- A conversion to `int16_t`. -/
def toInt16 (x : ℤ) : ℤ := (x + 32768) % 65536 - 32768

namespace Events

variable (trim : UInt8 → Option UInt16) (e : Events)

/-- `update_events`, with the trims of the servos. -/
def updateEvents (millis : UInt32) : Option Output × Events :=
  if e.repeats = 0 ∨ millis - e.startTimeMs < e.delayMs.toUInt32 then (none, e)
  else
    (match e.type with
      | .servo => (trim e.channel).map fun pwm =>
          .setOutputPwm e.channel (if e.repeats % 2 = 1 then pwm else e.servoValue)
      | .relay => some (.toggle e.channel),
      { e with
        startTimeMs := millis
        repeats :=
          if 0 < e.repeats then e.repeats - 1
          else if e.repeats % 2 = 0 then e.repeats + 1
          else e.repeats - 1 })

/-- The assignments of `do_repeat_relay`. -/
def setUpRelay (relayNum : UInt8) (count : ℤ) (delayMs : UInt32) : Events :=
  { e with
    type := .relay
    channel := relayNum
    startTimeMs := 0
    delayMs := (delayMs / 2).toUInt16
    repeats := toInt16 (count * 2) }

def doRepeatRelay (enabled : UInt8 → Bool) (relayNum : UInt8) (count : ℤ) (delayMs millis : UInt32) :
    Bool × Option Output × Events :=
  if enabled relayNum then (true, (e.setUpRelay relayNum count delayMs).updateEvents trim millis)
  else (false, none, e)

/-- The times at which `update_events` toggles the relay. -/
def toggles (relayNum : UInt8) : Events → List ℕ → List ℕ
  | _, [] => []
  | e, t :: ts =>
    let (output, e) := e.updateEvents trim (UInt32.ofNat t)
    if output = some (.toggle relayNum) then t :: toggles relayNum e ts else toggles relayNum e ts

end Events

/-- The toggles of `do_repeat_relay` and the calls after it. -/
def togglesOfRepeat (trim : UInt8 → Option UInt16) (enabled : UInt8 → Bool) (e : Events)
    (relayNum : UInt8) (count : ℤ) (delayMs : UInt32) : List ℕ → List ℕ
  | [] => []
  | t :: ts =>
    let (_, output, e) := e.doRepeatRelay trim enabled relayNum count delayMs (UInt32.ofNat t)
    if output = some (.toggle relayNum) then t :: e.toggles trim relayNum ts
    else e.toggles trim relayNum ts

/-- Each time is at least `gap` after the one before it. -/
def Spaced (gap : ℕ) (ts : List ℕ) : Prop := ts.IsChain fun s t => s + gap ≤ t

/-- The cycles are performed with these calls. -/
structure Performs (count delayMs : ℕ) (calls toggles : List ℕ) : Prop where
  apart : Spaced (delayMs / 2) toggles
  most : toggles.length ≤ 2 * count
  all : ∀ spaced, spaced.Sublist calls → spaced.length = 2 * count → Spaced (delayMs / 2) (0 :: spaced) →
    toggles.length = 2 * count

variable {trim : UInt8 → Option UInt16} {e : Events}

theorem waits_iff {t : ℕ} (after : e.startTimeMs.toNat ≤ t) (below : t < 2 ^ 32) :
    UInt32.ofNat t - e.startTimeMs < e.delayMs.toUInt32 ↔
      t < e.startTimeMs.toNat + e.delayMs.toNat := by
  have now : (UInt32.ofNat t).toNat = t := mod_eq_of_lt below
  rw [UInt32.lt_iff_toNat_lt, UInt32.toNat_sub_of_le _ _
    (le_iff_toNat_le.mpr (after.trans_eq now.symm)), now, UInt16.toNat_toUInt32]
  omega

theorem toggles_cons {t : ℕ} (relay : e.type = .relay)
    (due : ¬(e.repeats = 0 ∨ UInt32.ofNat t - e.startTimeMs < e.delayMs.toUInt32)) (ts : List ℕ) :
    e.toggles trim e.channel (t :: ts) =
      t :: Events.toggles trim e.channel
        { e with
          type := .relay
          startTimeMs := UInt32.ofNat t
          repeats :=
            if 0 < e.repeats then e.repeats - 1
            else if e.repeats % 2 = 0 then e.repeats + 1
            else e.repeats - 1 } ts := by
  rw [Events.toggles, Events.updateEvents, if_neg due, relay]
  simp only [if_true]

theorem toggles_spec {left : ℕ} {ts : List ℕ} (relay : e.type = .relay) (repeats : e.repeats = left)
    (sorted : (e.startTimeMs.toNat :: ts).Pairwise (· ≤ ·)) (below : ∀ t ∈ ts, t < 2 ^ 32) :
    Spaced e.delayMs.toNat (e.startTimeMs.toNat :: e.toggles trim e.channel ts) ∧
      (e.toggles trim e.channel ts).length ≤ left ∧
      ∀ u spaced, e.startTimeMs.toNat ≤ u → spaced.Sublist ts → Spaced e.delayMs.toNat (u :: spaced) →
        spaced.length ≤ left → spaced.length ≤ (e.toggles trim e.channel ts).length := by
  induction ts generalizing e left with
  | nil =>
    refine ⟨.singleton _, zero_le _, fun u spaced _ sub _ _ => ?_⟩
    rw [sublist_nil.mp sub]
    exact zero_le _
  | cons t ts ih =>
    obtain ⟨late, sorted'⟩ := pairwise_cons.mp sorted
    have first : e.startTimeMs.toNat ≤ t := late t mem_cons_self
    have now : (UInt32.ofNat t).toNat = t := mod_eq_of_lt (below t mem_cons_self)
    have below' : ∀ t ∈ ts, t < 2 ^ 32 := fun t mem => below t (mem_cons_of_mem _ mem)
    have waits_iff := waits_iff first (below t mem_cons_self)
    by_cases waits : e.repeats = 0 ∨ UInt32.ofNat t - e.startTimeMs < e.delayMs.toUInt32
    · have same : e.toggles trim e.channel (t :: ts) = e.toggles trim e.channel ts := by
        rw [Events.toggles, Events.updateEvents, if_pos waits]
        rfl
      have sorted'' : (e.startTimeMs.toNat :: ts).Pairwise (· ≤ ·) := sorted.sublist (by simp)
      obtain ⟨apart, most, all⟩ := ih relay repeats sorted'' below'
      rw [same]
      refine ⟨apart, most, fun u spaced after sub chain few => all u spaced after ?_ chain few⟩
      -- No spaced time is the one of this call.
      cases sub with
      | cons _ sub => exact sub
      | cons_cons _ sub =>
        exfalso
        have := (isChain_cons_cons.mp chain).1
        rw [length_cons] at few
        rw [waits_iff] at waits
        omega
    · have positive : 0 < e.repeats := by omega
      let next : Events :=
        { e with type := .relay, startTimeMs := UInt32.ofNat t, repeats := e.repeats - 1 }
      have toggled : e.toggles trim e.channel (t :: ts) = t :: next.toggles trim e.channel ts := by
        rw [toggles_cons relay waits, if_pos positive]
      rw [not_or, waits_iff] at waits
      obtain ⟨apart, most, all⟩ := @ih next (left - 1) rfl (by simp only [next]; omega)
        (now.symm ▸ sorted') below'
      change (next.toggles trim e.channel ts).length ≤ left - 1 at most
      rw [toggled, length_cons]
      refine ⟨isChain_cons_cons.mpr ⟨by omega, now ▸ apart⟩, by omega,
        fun u spaced after sub chain few => ?_⟩
      cases spaced with
      | nil => exact zero_le _
      | cons v spaced =>
        have later : t ≤ v := by
          rcases mem_cons.mp (sub.subset mem_cons_self) with rfl | mem
          · exact le_rfl
          · exact (pairwise_cons.mp sorted').1 v mem
        have := all v spaced (now.trans_le later) sub.tail (isChain_cons_cons.mp chain).2
          (by rw [length_cons] at few; omega)
        rw [length_cons]
        exact succ_le_succ this

theorem togglesOfRepeat_eq (trim : UInt8 → Option UInt16) {enabled : UInt8 → Bool} (e : Events)
    {relayNum : UInt8} (accepted : enabled relayNum = true) (count : ℤ) (delayMs : UInt32)
    (calls : List ℕ) :
    togglesOfRepeat trim enabled e relayNum count delayMs calls =
      (e.setUpRelay relayNum count delayMs).toggles trim relayNum calls := by
  cases calls with
  | nil => rfl
  | cons t ts => simp only [togglesOfRepeat, Events.toggles, Events.doRepeatRelay, if_pos accepted]

/-- Up to 16383 cycles of less than 131072 milliseconds are performed. -/
theorem repeats_performed (trim : UInt8 → Option UInt16) {enabled : UInt8 → Bool} (e : Events)
    {relayNum : UInt8} (accepted : enabled relayNum = true) {count : ℕ}
    (few : count ≤ 16383) {delayMs : UInt32} (short : delayMs.toNat / 2 < 65536) {calls : List ℕ}
    (sorted : calls.Pairwise (· ≤ ·)) (below : ∀ t ∈ calls, t < 2 ^ 32) :
    Performs count delayMs.toNat calls
      (togglesOfRepeat trim enabled e relayNum count delayMs calls) := by
  have delay : (e.setUpRelay relayNum count delayMs).delayMs.toNat = delayMs.toNat / 2 := by
    simp [Events.setUpRelay]
    omega
  have repeats : (e.setUpRelay relayNum count delayMs).repeats = (2 * count : ℕ) := by
    simp only [Events.setUpRelay, toInt16]
    omega
  obtain ⟨apart, most, all⟩ := @toggles_spec trim (e.setUpRelay relayNum count delayMs) _ calls rfl
    repeats (pairwise_cons.mpr ⟨fun t _ => zero_le t, sorted⟩) below
  rw [delay] at apart all
  rw [togglesOfRepeat_eq trim e accepted]
  exact ⟨apart.tail, most, fun spaced sub length chain =>
    most.antisymm (length ▸ all 0 spaced le_rfl sub chain length.le)⟩

theorem toggles_sublist (e : Events) (relayNum : UInt8) (ts : List ℕ) :
    (e.toggles trim relayNum ts).Sublist ts := by
  induction ts generalizing e with
  | nil => exact .slnil
  | cons t ts ih =>
    rw [Events.toggles]
    dsimp only
    split_ifs
    · exact (ih _).cons_cons t
    · exact (ih _).cons t

/-- A negative number of events stays negative: every call toggles the relay. -/
theorem toggles_of_neg {ts : List ℕ} (relay : e.type = .relay) (neg : e.repeats < 0)
    (spaced : Spaced 65536 (e.startTimeMs.toNat :: ts)) (below : ∀ t ∈ ts, t < 2 ^ 32) :
    e.toggles trim e.channel ts = ts := by
  induction ts generalizing e with
  | nil => rfl
  | cons t ts ih =>
    obtain ⟨gap, rest⟩ := isChain_cons_cons.mp spaced
    have now : (UInt32.ofNat t).toNat = t := mod_eq_of_lt (below t mem_cons_self)
    have small := e.delayMs.toNat_lt
    rw [toggles_cons relay (by rw [waits_iff (by omega) (below t mem_cons_self)]; omega),
      if_neg neg.not_gt]
    let next : Events :=
      { e with
        type := .relay
        startTimeMs := UInt32.ofNat t
        repeats := if e.repeats % 2 = 0 then e.repeats + 1 else e.repeats - 1 }
    have negative : next.repeats < 0 := by
      simp only [next]
      split_ifs <;> omega
    exact congrArg (t :: ·) (@ih next rfl negative (now.symm ▸ rest) fun u mem =>
      below u (mem_cons_of_mem _ mem))

/-- The cycles are performed for all calls exactly if the number of events and the half cycle have
16 bits. -/
theorem repeats_performed_iff (trim : UInt8 → Option UInt16) {enabled : UInt8 → Bool} (e : Events)
    {relayNum : UInt8} (accepted : enabled relayNum = true) {count : ℕ} (pos : 1 ≤ count)
    (most : count ≤ 32767) (delayMs : UInt32) :
    (∀ calls : List ℕ, calls.Pairwise (· ≤ ·) → (∀ t ∈ calls, t < 2 ^ 32) →
      Performs count delayMs.toNat calls
        (togglesOfRepeat trim enabled e relayNum count delayMs calls)) ↔
      count ≤ 16383 ∧ delayMs.toNat / 2 < 65536 := by
  refine ⟨fun performs => ?_, fun fits calls sorted below =>
    repeats_performed trim e accepted fits.1 fits.2 sorted below⟩
  simp only [togglesOfRepeat_eq trim e accepted] at performs
  let start := e.setUpRelay relayNum count delayMs
  have few : count ≤ 16383 := by
    by_contra many
    have neg : start.repeats < 0 := by
      simp only [start, Events.setUpRelay, toInt16]
      omega
    -- one call more than there are events
    let calls := range' 65536 (2 * count + 1) 65536
    have chain : Spaced 65536 (0 :: calls) :=
      (isChain_range' 0 (2 * count + 2) 65536).imp fun _ _ h => h.ge
    have sorted : calls.Pairwise (· ≤ ·) :=
      (isChain_iff_pairwise.mp (chain.imp fun _ _ h => le_of_add_right_le h)).of_cons
    have below : ∀ t ∈ calls, t < 2 ^ 32 := by
      intro t mem
      obtain ⟨i, lt, rfl⟩ := mem_range'.mp mem
      omega
    have toggled : start.toggles trim relayNum calls = calls :=
      @toggles_of_neg trim start calls rfl neg chain below
    have fewer := (performs calls sorted below).most
    rw [toggled, length_range'] at fewer
    omega
  refine ⟨few, ?_⟩
  by_contra long
  -- two calls that are half a cycle apart, as it is kept
  let half := delayMs.toNat / 2 % 65536
  have small : half < 65536 := mod_lt _ (by decide)
  have kept : start.delayMs.toNat = half := by simp [start, half, Events.setUpRelay]
  have repeats : start.repeats = 2 * count := by
    simp only [start, Events.setUpRelay, toInt16]
    omega
  have sorted : [half, 2 * half].Pairwise (· ≤ ·) := by
    simp
    omega
  have below : ∀ t ∈ [half, 2 * half], t < 2 ^ 32 := by
    simp
    omega
  obtain ⟨-, -, all⟩ := @toggles_spec trim start (2 * count) [half, 2 * half] rfl repeats
    (pairwise_cons.mpr ⟨fun t _ => zero_le t, sorted⟩) below
  have two := all 0 [half, 2 * half] le_rfl (Sublist.refl _)
    (by rw [kept]; simp [Spaced]; omega) (by simp; omega)
  have toggled : start.toggles trim relayNum [half, 2 * half] = [half, 2 * half] :=
    (toggles_sublist start relayNum _).eq_of_length_le two
  have apart := (performs _ sorted below).apart
  rw [toggled] at apart
  have gap := (isChain_cons_cons.mp apart).1
  omega

theorem two_cycles_performed :
    let toggles := togglesOfRepeat (fun _ => none) (fun _ => true) .initial 1 2 10
      [100, 103, 105, 110, 120, 130]
    toggles = [100, 105, 110, 120] ∧ Performs 2 10 [100, 103, 105, 110, 120, 130] toggles :=
  ⟨by decide, (@repeats_performed_iff _ _ _ 1 rfl 2 (by decide) (by decide) 10).mpr (by decide) _
    (by decide) (by decide)⟩

/-- Half of 131072 milliseconds is kept as 0. -/
theorem long_cycle_not_performed :
    ¬ Performs 1 131072 [0, 1]
      (togglesOfRepeat (fun _ => none) (fun _ => true) .initial 1 1 131072 [0, 1]) := by
  intro performs
  have toggles : togglesOfRepeat (fun _ => none) (fun _ => true) .initial 1 1 131072 [0, 1] = [0, 1] :=
    by decide
  have apart := performs.apart
  rw [toggles] at apart
  exact absurd (isChain_cons_cons.mp apart).1 (by decide)

end Tm4cPilot.ServoRelay
