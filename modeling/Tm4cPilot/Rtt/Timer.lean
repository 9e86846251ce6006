import Tm4cPilot.Lib.SkipList
import Tm4cPilot.Rtt.Kernel

/-!
# RT-Thread timers

The timers, the two lists and the calls of `timer.c`.  A list is a skip list with
`RT_TIMER_SKIP_LIST_LEVEL` rows, of which the last one holds all timers.  The rows stand for the
nodes, each of which is in at most one.
-/

namespace Tm4cPilot.Rtt

open List Function

def halfTickMax : UInt32 := 0xffffffff / 2

/-- `RT_TIMER_SKIP_LIST_LEVEL` and `RT_TIMER_SKIP_LIST_MASK`. -/
structure TimerConfig where
  level : ℕ
  mask : UInt32
  positive : 0 < level

/-- The row of all timers. -/
def TimerConfig.last (config : TimerConfig) : ℕ := config.level - 1

/-- The values of `rtdef.h`. -/
def TimerConfig.default : TimerConfig := ⟨1, 0x3, Nat.one_pos⟩

/-- `struct rt_timer`, with the bits of its flag. -/
structure Timer where
  initTick : UInt32
  timeoutTick : UInt32
  activated : Bool
  periodic : Bool
  soft : Bool
  deriving DecidableEq, Repr

/-- The tick, the counter of `rt_timer_start`, the timers and the rows. -/
structure Timers where
  tick : UInt32
  randomNr : UInt32
  timer : ℕ → Timer
  row : Bool → ℕ → List ℕ

namespace Timers

variable (config : TimerConfig) (s : Timers)

/-- A timer is changed. -/
def modify (t : ℕ) (f : Timer → Timer) : Timers :=
  { s with timer := update s.timer t (f (s.timer t)) }

/-- `rt_timer_init`, which does not look at the rows. -/
def timerInit (t : ℕ) (time : UInt32) (periodic soft : Bool) : Timers :=
  s.modify t fun _ => ⟨time, 0, false, periodic, soft⟩

def timerRemove (t : ℕ) : Timers := { s with row := fun soft i => (s.row soft i).erase t }

/-- The timer has the same timeout as `t` or an earlier one. -/
def passes (t u : ℕ) : Bool :=
  let delta := (s.timer u).timeoutTick - (s.timer t).timeoutTick
  if delta = 0 then true else !decide (delta < halfTickMax)

/-- The rows of a timer. -/
def extraRows (mask : UInt32) : UInt32 → ℕ → ℕ
  | _, 0 => 0
  | tstNr, rows + 1 =>
    if tstNr &&& mask = 0 then extraRows mask (tstNr >>> ((mask + 1) >>> 1)) rows + 1 else 0

/-- The second section of `rt_timer_start`. -/
def timerInsert (t : ℕ) : Timers :=
  let soft := (s.timer t).soft
  let randomNr := s.randomNr + 1
  let extra := extraRows config.mask randomNr config.last
  { s with
    randomNr
    row := update s.row soft fun i =>
      if config.last - extra ≤ i ∧ i ≤ config.last then
        SkipList.insertAfter t (SkipList.heads (s.passes t) (s.row soft) i) (s.row soft i)
      else s.row soft i }.modify t fun timer => { timer with activated := true }

def timerStart (t : ℕ) : Timers :=
  let s := (s.timerRemove t).modify t fun timer => { timer with activated := false }
  let s := s.modify t fun timer => { timer with timeoutTick := s.tick + timer.initTick }
  s.timerInsert config t

def timerStop (t : ℕ) : Timers × Err :=
  if (s.timer t).activated = false then (s, .error)
  else ((s.timerRemove t).modify t fun timer => { timer with activated := false }, .ok)

def timerDetach (t : ℕ) : Timers × Err := (s.timerRemove t, .ok)

/-- The time of a timer has come. -/
def TimedOut (currentTick : UInt32) (t : ℕ) : Prop :=
  currentTick - (s.timer t).timeoutTick < halfTickMax
deriving Decidable

/-- A round of `rt_timer_check` up to the timeout function. -/
def timerFire : Option (ℕ × Timers) :=
  match s.row false config.last with
  | [] => none
  | t :: _ => if s.TimedOut s.tick t then some (t, s.timerRemove t) else none

/-- The end of a round. -/
def timerReturn (t : ℕ) : Timers :=
  if (s.timer t).periodic = true ∧ (s.timer t).activated = true then
    (s.modify t fun timer => { timer with activated := false }).timerStart config t
  else s.modify t fun timer => { timer with activated := false }

/-- `rt_timer_check`, and the timers that were called. -/
def timerCheck : ℕ → Timers → Option (Timers × List ℕ)
  | 0, _ => none
  | rounds + 1, s =>
    match s.timerFire config with
    | none => some (s, [])
    | some (t, s) =>
      (timerCheck rounds (s.timerReturn config t)).map fun result => (result.1, t :: result.2)

/-- `rt_tick_increase`, without the time slices of the threads. -/
def tickIncrease : Option (Timers × List ℕ) :=
  timerCheck config ((s.row false config.last).length + 1) { s with tick := s.tick + 1 }

variable {config s} {s' : Timers} {t u : ℕ}

@[simp] theorem row_modify (t : ℕ) (f : Timer → Timer) : (s.modify t f).row = s.row := rfl

@[simp] theorem tick_modify (t : ℕ) (f : Timer → Timer) : (s.modify t f).tick = s.tick := rfl

@[simp] theorem timer_modify_self (t : ℕ) (f : Timer → Timer) :
    (s.modify t f).timer t = f (s.timer t) := update_self ..

@[simp] theorem timer_modify_of_ne (f : Timer → Timer) (other : u ≠ t) :
    (s.modify t f).timer u = s.timer u := update_of_ne other ..

@[simp] theorem row_timerRemove (t : ℕ) (soft : Bool) (i : ℕ) :
    (s.timerRemove t).row soft i = (s.row soft i).erase t := rfl

@[simp] theorem timer_timerRemove (t : ℕ) : (s.timerRemove t).timer = s.timer := rfl

@[simp] theorem tick_timerRemove (t : ℕ) : (s.timerRemove t).tick = s.tick := rfl

@[simp] theorem timer_timerStart_self (t : ℕ) : (s.timerStart config t).timer t =
    { s.timer t with timeoutTick := s.tick + (s.timer t).initTick, activated := true } := by
  simp [timerStart, timerInsert, modify]

@[simp] theorem timer_timerStart_of_ne (other : u ≠ t) :
    (s.timerStart config t).timer u = s.timer u := by
  simp [timerStart, timerInsert, modify, other]

@[simp] theorem tick_timerStart (t : ℕ) : (s.timerStart config t).tick = s.tick := rfl

theorem row_timerStart (t : ℕ) (soft : Bool) (i : ℕ) :
    ((s.timerStart config t).row soft i).Perm
        (if soft = (s.timer t).soft ∧ config.last - extraRows config.mask (s.randomNr + 1) config.last ≤ i ∧
          i ≤ config.last then t :: (s.row soft i).erase t else (s.row soft i).erase t) := by
  by_cases own : soft = (s.timer t).soft
  · subst own
    simp only [timerStart, timerInsert, modify, timerRemove, update_self, true_and]
    split_ifs
    · exact SkipList.perm_insertAfter _ _ _
    · exact .refl _
  · simp [timerStart, timerInsert, modify, timerRemove, own]

/-- The timer is in a row. -/
def Linked (config : TimerConfig) (s : Timers) (t : ℕ) : Prop :=
  ∃ soft, ∃ i < config.level, t ∈ s.row soft i

instance (t : ℕ) : Decidable (s.Linked config t) :=
  inferInstanceAs (Decidable (∃ soft, ∃ i < config.level, t ∈ s.row soft i))

theorem last_lt (config : TimerConfig) : config.last < config.level :=
  Nat.sub_lt config.positive Nat.one_pos

theorem linked_of_row (same : s'.row = s.row) : s'.Linked config t ↔ s.Linked config t := by
  rw [Linked, Linked, same]

/-- No timer is twice in a row. -/
def Nodup (s : Timers) : Prop := ∀ soft i, (s.row soft i).Nodup

theorem Nodup.timerRemove (nodup : s.Nodup) (t : ℕ) : (s.timerRemove t).Nodup :=
  fun soft i => (nodup soft i).erase t

theorem Nodup.not_mem_timerRemove (nodup : s.Nodup) (soft : Bool) (i : ℕ) :
    t ∉ (s.timerRemove t).row soft i := (nodup soft i).not_mem_erase

theorem mem_timerRemove_of_ne (other : u ≠ t) {soft : Bool} {i : ℕ} :
    u ∈ (s.timerRemove t).row soft i ↔ u ∈ s.row soft i := mem_erase_of_ne other

theorem Nodup.timerStart (nodup : s.Nodup) (t : ℕ) : (s.timerStart config t).Nodup := by
  intro soft i
  rw [(row_timerStart t soft i).nodup_iff]
  split_ifs
  · exact nodup_cons.mpr ⟨(nodup soft i).not_mem_erase, (nodup soft i).erase t⟩
  · exact (nodup soft i).erase t

theorem mem_timerStart_of_ne (other : u ≠ t) {soft : Bool} {i : ℕ} :
    u ∈ (s.timerStart config t).row soft i ↔ u ∈ s.row soft i := by
  rw [(row_timerStart t soft i).mem_iff]
  split_ifs
  · rw [mem_cons, or_iff_right other, mem_erase_of_ne other]
  · rw [mem_erase_of_ne other]

theorem linked_timerStart (t : ℕ) : (s.timerStart config t).Linked config t := by
  refine ⟨(s.timer t).soft, config.last, last_lt config, ?_⟩
  rw [(row_timerStart t _ _).mem_iff, if_pos ⟨rfl, Nat.sub_le _ _, le_rfl⟩]
  exact mem_cons_self

theorem linked_timerStart_of_ne (other : u ≠ t) :
    (s.timerStart config t).Linked config u ↔ s.Linked config u := by
  simp only [Linked, mem_timerStart_of_ne other]

theorem linked_timerRemove_of_ne (other : u ≠ t) :
    (s.timerRemove t).Linked config u ↔ s.Linked config u := by
  simp only [Linked, mem_timerRemove_of_ne other]

theorem Nodup.not_linked_timerRemove (nodup : s.Nodup) : ¬ (s.timerRemove t).Linked config t :=
  fun ⟨soft, i, _, inRow⟩ => nodup.not_mem_timerRemove soft i inRow

theorem Nodup.timerReturn (nodup : s.Nodup) (t : ℕ) : (s.timerReturn config t).Nodup := by
  rw [Timers.timerReturn]
  split_ifs
  · exact Nodup.timerStart (s := s.modify t _) nodup t
  · exact nodup

theorem timerFire_eq (h : s.timerFire config = some (t, s')) :
    t ∈ s.row false config.last ∧ s' = s.timerRemove t := by
  unfold timerFire at h
  cases isRow : s.row false config.last with
  | nil => simp [isRow] at h
  | cons u row =>
    simp only [isRow] at h
    split_ifs at h
    obtain ⟨rfl, rfl⟩ := Prod.mk.inj (Option.some.inj h)
    exact ⟨mem_cons_self, rfl⟩

end Timers

end Tm4cPilot.Rtt
