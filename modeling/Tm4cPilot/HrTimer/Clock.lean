import Tm4cPilot.HrTimer.Check
import Tm4cPilot.HrTimer.Periodic

/-!
# The microsecond clock

TIMER0 counts microseconds in 16 bits.  `get_cur_tick` makes a 64-bit time of it by noticing that
the count has become smaller, and only the interrupt that `set_timeout` programs sees to it that the
counter is read often enough.
-/

namespace Tm4cPilot.HrTimer

open Option UInt32

/-- TIMER0 and the variables of `get_cur_tick`. -/
structure Hardware where
  /-- The true time in microseconds since the start of the timer. -/
  now : ℕ
  baseTick : UInt64
  lastCount : UInt32
  /-- The count at which the counter matches. -/
  ccr : UInt32
  /-- The time of a match whose interrupt has not been served yet. -/
  pending : Option ℕ
  deriving DecidableEq, Repr

def hrtIntervalMax : UInt64 := 50000

def hrtIntervalMin : UInt64 := 50

namespace Hardware

variable (h : Hardware)

/-- The timer as `drv_hrtimer_init` starts it. -/
def start : Hardware := ⟨0, 0, 0, hrtIntervalMax.toUInt32, none⟩

/-- `TIMER_O_TAR`: the timer counts down from `HRT_PERIOD - 1`. -/
def tar : ℕ := 65535 - h.now % 65536

/-- The count of the timer. -/
def count : UInt32 := UInt32.ofNat (65535 - h.tar)

def getCurTick : UInt64 × Hardware :=
  let baseTick := if h.count < h.lastCount then h.baseTick + 65536 else h.baseTick
  (baseTick + h.count.toUInt64, { h with baseTick := baseTick, lastCount := h.count })

/-- The tick that `set_timeout` programs. -/
def effectiveTick (curTick tick : UInt64) : UInt64 :=
  let tick := if tick = 0xffffffffffffffff then curTick + hrtIntervalMax else tick
  if tick ≤ curTick + hrtIntervalMin then curTick + hrtIntervalMin else tick

/-- `set_timeout`, with the value it reads from the clock. -/
def setTimeout (tick : UInt64) : UInt64 × Hardware :=
  let (curTick, h) := h.getCurTick
  (curTick, { h with ccr := (effectiveTick curTick tick % 65536).toUInt32 })

/-- When the counter matches next. -/
def nextMatch : ℕ := h.now + 1 + (h.ccr.toNat + 65536 - (h.now + 1) % 65536) % 65536

def wait (n : ℕ) : Hardware :=
  { h with
    now := h.now + n
    pending := h.pending.or (if h.nextMatch ≤ h.now + n then some h.nextMatch else none) }

end Hardware

/-! ## The clock and the timers -/

variable {κ σ : Type*}

/-- The hardware and the timers, and the values of `get_cur_tick` with their true times. -/
structure Clocked (κ : Type*) where
  hw : Hardware
  queue : Queue κ
  returned : List (UInt64 × ℕ)

inductive ClockEvent (κ σ : Type*) where
  | wait (n : ℕ)
  /-- Someone asks for the time. -/
  | read
  | init (k : κ) (time : UInt64) (periodic : Bool)
  | start (k : κ)
  | stop (k : κ)
  /-- `Timer0IntHandler`, with the state of the timeout functions and a bound for the rounds of
  `hrtimer_check`. -/
  | interrupt (env : σ) (rounds : ℕ)

namespace Clocked

variable [DecidableEq κ] (c : Clocked κ)

/-- The clock at its start. -/
def boot (timer : κ → Timer) : Clocked κ := ⟨Hardware.start, ⟨timer, [], 0⟩, []⟩

/-- The clock is read. -/
def read : UInt64 × Clocked κ :=
  let (tick, hw) := c.hw.getCurTick
  (tick, { c with hw := hw, returned := (tick, c.hw.now) :: c.returned })

/-- `hrtimer_ops->set_timeout(hrtimer_next_timeout_tick())`. -/
def schedule : Clocked κ :=
  let (tick, hw) := c.hw.setTimeout c.queue.hrtimerNextTimeoutTick
  { c with hw := hw, returned := (tick, c.hw.now) :: c.returned }

/-- The interrupt is acknowledged. -/
def clear : Clocked κ := { c with hw := { c.hw with pending := none } }

/-- One step. A call takes no time (`Hardware.getCurTick_getCurTick`). -/
def step (callback : Callback κ σ) (c : Clocked κ) : ClockEvent κ σ → Option (Clocked κ)
  | .wait n => some { c with hw := c.hw.wait n }
  | .read => some c.read.2
  | .init k time periodic => some { c with queue := c.queue.hrtimerInit k time periodic }
  | .start k =>
    let (now, c) := c.read
    some (schedule { c with queue := c.queue.hrtimerStart k now })
  | .stop k => some { c with queue := (c.queue.hrtimerStop k).1 }
  | .interrupt env rounds =>
    let (now, c) := c.clear.read
    (hrtimerCheck (fun _ => now) callback rounds c.queue env).map fun r =>
      schedule { c with queue := r.queue }

/-- The first deadline, if any, has come, or is served before the counter is back at the present
count. -/
def Near (now : ℕ) (deadline : UInt64) : Prop :=
  deadline = 0xffffffffffffffff ∨ deadline ≤ UInt64.ofNat now + hrtIntervalMin ∨
    0 < (deadline - UInt64.ofNat now).toNat % 65536 ∧
      (deadline - UInt64.ofNat now).toNat % 65536 + 1000 < 65536
  deriving Decidable

/-- The interrupts are served in time. -/
def Served (c : Clocked κ) : ClockEvent κ σ → Prop
  | .wait n => ∀ t ∈ (c.hw.wait n).pending, c.hw.now + n ≤ t + 1000
  | .interrupt _ _ => c.hw.pending.isSome
  | _ => True

/-- The deadlines are near. -/
def ProgramsNear (callback : Callback κ σ) (c : Clocked κ) : ClockEvent κ σ → Prop
  | .start k =>
    Near c.hw.now (c.queue.hrtimerStart k (UInt64.ofNat c.hw.now)).hrtimerNextTimeoutTick
  | .interrupt env rounds =>
    ∀ r ∈ hrtimerCheck (fun _ => UInt64.ofNat c.hw.now) callback rounds c.queue env,
      Near c.hw.now r.queue.hrtimerNextTimeoutTick
  | _ => True

instance (c : Clocked κ) : (e : ClockEvent κ σ) → Decidable (c.Served e)
  | .wait n => inferInstanceAs (Decidable (∀ t ∈ (c.hw.wait n).pending, c.hw.now + n ≤ t + 1000))
  | .interrupt _ _ => inferInstanceAs (Decidable (c.hw.pending.isSome = true))
  | .read | .init _ _ _ | .start _ | .stop _ => .isTrue trivial

instance (callback : Callback κ σ) (c : Clocked κ) :
    (e : ClockEvent κ σ) → Decidable (c.ProgramsNear callback e)
  | .start _ => inferInstanceAs (Decidable (Near _ _))
  | .interrupt _ _ => inferInstanceAs (Decidable (∀ r ∈ hrtimerCheck _ _ _ _ _, Near _ _))
  | .read | .init _ _ _ | .wait _ | .stop _ => .isTrue trivial

/-- The clock after a run. -/
def after (callback : Callback κ σ) (c : Clocked κ) (events : List (ClockEvent κ σ)) :
    Option (Clocked κ) :=
  Run.run (Run.lift (step callback)) (some c) events

end Clocked

namespace Hardware

variable {h : Hardware} {last : ℕ}

theorem toNat_count (h : Hardware) : h.count.toNat = h.now % 65536 := by
  rw [count, tar, toNat_ofNat']
  omega

/-- The variables are those of the last reading, at this time. -/
structure ReadAt (h : Hardware) (last : ℕ) : Prop where
  baseTick : h.baseTick = UInt64.ofNat (65536 * (last / 65536))
  lastCount : h.lastCount.toNat = last % 65536
  le : last ≤ h.now
  lt : h.now < last + 65536

theorem ReadAt.getCurTick (read : h.ReadAt last) :
    h.getCurTick.1 = UInt64.ofNat h.now ∧ h.getCurTick.2.ReadAt h.now := by
  have hcount := h.toNat_count
  have hle := read.le
  have hlt := read.lt
  have hbase : (if h.count < h.lastCount then h.baseTick + 65536 else h.baseTick) =
      UInt64.ofNat (65536 * (h.now / 65536)) := by
    rw [read.baseTick]
    split
    · next hwrap =>
      rw [lt_iff_toNat_lt, hcount, read.lastCount] at hwrap
      rw [show 65536 * (h.now / 65536) = 65536 * (last / 65536) + 65536 by omega, UInt64.ofNat_add]
      rfl
    · next hsame =>
      rw [lt_iff_toNat_lt, hcount, read.lastCount] at hsame
      congr 1
      omega
  refine ⟨?_, hbase, hcount, le_rfl, ?_⟩
  · change (if h.count < h.lastCount then _ else _) + h.count.toUInt64 = _
    rw [hbase, ← UInt64.ofNat_uInt32ToNat, hcount, ← UInt64.ofNat_add]
    congr 1
    omega
  · change h.now < h.now + 65536
    omega

theorem getCurTick_getCurTick (h : Hardware) : h.getCurTick.2.getCurTick.1 = h.getCurTick.1 := by
  change (if h.count < h.count then _ else _) + h.count.toUInt64 = _
  rw [if_neg (UInt32.lt_irrefl _)]
  rfl

theorem lt_nextMatch (h : Hardware) : h.now < h.nextMatch := by
  rw [nextMatch]
  omega

theorem nextMatch_wait {n : ℕ} (hn : h.now + n < h.nextMatch) :
    (h.wait n).nextMatch = h.nextMatch := by
  rw [nextMatch] at hn ⊢
  rw [nextMatch]
  change h.now + n + 1 + (h.ccr.toNat + 65536 - (h.now + n + 1) % 65536) % 65536 = _
  omega

/-- The time to the match. -/
def distance (curTick tick : UInt64) : ℕ := (effectiveTick curTick tick - curTick).toNat % 65536

theorem nextMatch_setTimeout {tick : UInt64} (hcur : h.getCurTick.1 = UInt64.ofNat h.now)
    (hpos : 0 < distance (UInt64.ofNat h.now) tick) :
    (h.setTimeout tick).2.nextMatch = h.now + distance (UInt64.ofNat h.now) tick := by
  have hccr : (h.setTimeout tick).2.ccr.toNat =
      (effectiveTick (UInt64.ofNat h.now) tick).toNat % 65536 := by
    change (effectiveTick h.getCurTick.1 tick % 65536).toUInt32.toNat = _
    rw [hcur, UInt64.toNat_toUInt32, UInt64.toNat_mod]
    change _ % 65536 % 2 ^ 32 = _
    omega
  have hnow : (h.setTimeout tick).2.now = h.now := rfl
  rw [nextMatch, hccr, hnow]
  rw [distance, UInt64.toNat_sub, UInt64.toNat_ofNat'] at hpos ⊢
  generalize (effectiveTick (UInt64.ofNat h.now) tick).toNat = e at hpos ⊢
  omega

theorem effectiveTick_cases (curTick tick : UInt64) :
    effectiveTick curTick tick = curTick + hrtIntervalMin ∨
      effectiveTick curTick tick = curTick + hrtIntervalMax ∨
      effectiveTick curTick tick = tick ∧ tick ≠ 0xffffffffffffffff ∧
        ¬tick ≤ curTick + hrtIntervalMin := by
  rw [effectiveTick]
  by_cases hmax : tick = 0xffffffffffffffff
  · simp only [if_pos hmax]
    split
    · exact .inl rfl
    · exact .inr (.inl rfl)
  · simp only [if_neg hmax]
    split
    · exact .inl rfl
    · next hlate => exact .inr (.inr ⟨rfl, hmax, hlate⟩)

theorem distance_of_near {now : ℕ} {tick : UInt64} (near : Clocked.Near now tick) :
    0 < distance (UInt64.ofNat now) tick ∧
      distance (UInt64.ofNat now) tick + 1000 < 65536 := by
  have interval : ∀ interval : UInt64, effectiveTick (UInt64.ofNat now) tick =
      UInt64.ofNat now + interval → distance (UInt64.ofNat now) tick = interval.toNat % 65536 := by
    intro interval h
    rw [distance, h, UInt64.toNat_sub, UInt64.toNat_add]
    have := (UInt64.ofNat now).toNat_lt
    omega
  rcases effectiveTick_cases (UInt64.ofNat now) tick with h | h | ⟨h, hmax, hlate⟩
  · rw [interval _ h]
    decide
  · rw [interval _ h]
    decide
  · rw [distance, h]
    exact (near.resolve_left hmax).resolve_left hlate

end Hardware

/-! ## The interrupt comes in time -/

namespace Clocked

variable {callback : Callback κ σ} {c : Clocked κ} {last : ℕ}

/-- The counter was read in time, and all readings were right. -/
structure Exact (c : Clocked κ) (last : ℕ) : Prop where
  read : c.hw.ReadAt last
  returned : ∀ r ∈ c.returned, r.1 = UInt64.ofNat r.2

/-- The next interrupt is served before the counter wraps. -/
structure InTime (h : Hardware) (last : ℕ) : Prop where
  nextMatch : h.pending = none → h.nextMatch + 1000 < last + 65536
  pending : ∀ t ∈ h.pending, t ≤ h.now ∧ h.now ≤ t + 1000 ∧ t + 1000 < last + 65536

section

variable (hexact : Exact c last)
include hexact

theorem Exact.readNow : c.read.1 = UInt64.ofNat c.hw.now ∧ Exact c.read.2 c.hw.now := by
  obtain ⟨htick, hread⟩ := hexact.read.getCurTick
  refine ⟨htick, hread, ?_⟩
  intro r hr
  rcases List.mem_cons.mp hr with rfl | hr
  · exact htick
  · exact hexact.returned r hr

theorem Exact.withQueue (q : Queue κ) :
    Exact { c with queue := q } last := ⟨hexact.read, hexact.returned⟩

theorem Exact.clear : Exact c.clear last :=
  ⟨⟨hexact.read.baseTick, hexact.read.lastCount, hexact.read.le, hexact.read.lt⟩, hexact.returned⟩

theorem Exact.check [DecidableEq κ] {env : σ} {rounds : ℕ} {r : Check κ σ}
    (hr : hrtimerCheck (fun _ => c.clear.read.1) callback rounds c.queue env = some r) :
    hrtimerCheck (fun _ => UInt64.ofNat c.hw.now) callback rounds c.queue env = some r := by
  rw [hexact.clear.readNow.1] at hr
  exact hr

theorem Exact.schedule [DecidableEq κ] (near : Near c.hw.now c.queue.hrtimerNextTimeoutTick)
    (hpending : ∀ t ∈ c.hw.pending, t ≤ c.hw.now ∧ c.hw.now ≤ t + 1000) :
    Exact c.schedule c.hw.now ∧ InTime c.schedule.hw c.hw.now := by
  obtain ⟨htick, hread⟩ := hexact.read.getCurTick
  obtain ⟨hpos, hshort⟩ := Hardware.distance_of_near near
  refine ⟨⟨⟨hread.baseTick, hread.lastCount, hread.le, hread.lt⟩, ?_⟩, ?_, ?_⟩
  · intro r hr
    rcases List.mem_cons.mp hr with rfl | hr
    · exact htick
    · exact hexact.returned r hr
  · intro _
    change (c.hw.setTimeout _).2.nextMatch + 1000 < _
    rw [Hardware.nextMatch_setTimeout htick hpos]
    omega
  · intro t ht
    obtain ⟨hle, hlatency⟩ := hpending t ht
    exact ⟨hle, hlatency, by omega⟩

end

theorem InTime.getCurTick {h : Hardware} (inTime : InTime h last) (hle : last ≤ h.now) :
    InTime h.getCurTick.2 h.now := by
  refine ⟨fun hnone => ?_, fun t ht => ?_⟩
  · have := inTime.nextMatch hnone
    change h.nextMatch + 1000 < _
    omega
  · obtain ⟨hpast, hlatency, -⟩ := inTime.pending t ht
    exact ⟨hpast, hlatency, by omega⟩

theorem InTime.wait {h : Hardware} (inTime : InTime h last) {n : ℕ}
    (hserved : ∀ t ∈ (h.wait n).pending, h.now + n ≤ t + 1000) : InTime (h.wait n) last := by
  have hnow : (h.wait n).now = h.now + n := rfl
  have hwait : (h.wait n).pending =
      h.pending.or (if h.nextMatch ≤ h.now + n then some h.nextMatch else none) := rfl
  cases hpending : h.pending with
  | some t =>
    obtain ⟨hpast, -, hlt⟩ := inTime.pending t hpending
    rw [hpending, some_or] at hwait
    refine ⟨fun hnone => absurd (hwait.symm.trans hnone) nofun, fun t' ht' => ?_⟩
    obtain rfl : t = t' := some.inj (hwait.symm.trans ht')
    exact ⟨by omega, hserved t hwait, hlt⟩
  | none =>
    have hmatch := inTime.nextMatch hpending
    rw [hpending, none_or] at hwait
    split at hwait
    · next hcome =>
      refine ⟨fun hnone => absurd (hwait.symm.trans hnone) nofun, fun t' ht' => ?_⟩
      obtain rfl : h.nextMatch = t' := some.inj (hwait.symm.trans ht')
      exact ⟨hcome, hserved _ hwait, hmatch⟩
    · next hlater =>
      refine ⟨fun _ => ?_, fun t' ht' => nomatch hwait.symm.trans ht'⟩
      rwa [Hardware.nextMatch_wait (by omega)]

theorem InTime.lt {h : Hardware} (inTime : InTime h last) : h.now < last + 65536 := by
  cases hpending : h.pending with
  | none =>
    have := inTime.nextMatch hpending
    have := h.lt_nextMatch
    omega
  | some t =>
    obtain ⟨-, hlatency, hlt⟩ := inTime.pending t hpending
    omega

theorem Exact.step [DecidableEq κ] (hexact : Exact c last) (inTime : InTime c.hw last)
    {e : ClockEvent κ σ} (hserved : c.Served e) (hnear : c.ProgramsNear callback e)
    {c' : Clocked κ} (hstep : c.step callback e = some c') :
    ∃ last', Exact c' last' ∧ InTime c'.hw last' := by
  cases e with
  | wait n =>
    obtain rfl := some.inj hstep
    have inTime' := inTime.wait hserved
    have hread := hexact.read
    exact ⟨last, ⟨⟨hread.baseTick, hread.lastCount, hread.le.trans (Nat.le_add_right _ n),
      inTime'.lt⟩, hexact.returned⟩, inTime'⟩
  | read =>
    obtain rfl := some.inj hstep
    exact ⟨c.hw.now, hexact.readNow.2, inTime.getCurTick hexact.read.le⟩
  | init k time periodic =>
    obtain rfl := some.inj hstep
    exact ⟨last, hexact.withQueue _, inTime⟩
  | start k =>
    obtain rfl := some.inj hstep
    obtain ⟨htick, hread⟩ := hexact.readNow
    refine ⟨c.hw.now, (hread.withQueue _).schedule ?_ ?_⟩
    · change Near c.hw.now (c.queue.hrtimerStart k c.read.1).hrtimerNextTimeoutTick
      rw [htick]
      exact hnear
    · intro t ht
      obtain ⟨hpast, hlatency, -⟩ := inTime.pending t ht
      exact ⟨hpast, hlatency⟩
  | stop k =>
    obtain rfl := some.inj hstep
    exact ⟨last, hexact.withQueue _, inTime⟩
  | interrupt env rounds =>
    obtain ⟨r, hr, rfl⟩ := map_eq_some_iff.mp hstep
    have hread := hexact.clear.readNow.2
    exact ⟨c.hw.now, (hread.withQueue _).schedule (hnear r (hexact.check hr)) nofun⟩

theorem exact_boot (timer : κ → Timer) : Exact (boot timer) 0 ∧ InTime (boot timer).hw 0 := by
  have hnow : Hardware.start.now < 0 + 65536 := by decide
  have hmatch : Hardware.start.nextMatch + 1000 < 0 + 65536 := by decide
  exact ⟨⟨⟨rfl, rfl, le_rfl, hnow⟩, nofun⟩, fun _ => hmatch, nofun⟩

end Clocked

open Clocked in
/-- **The microsecond clock loses no time.** If interrupts are served in time and deadlines are
near, every value of `get_cur_tick` is the true time. -/
theorem clock_true [DecidableEq κ] (callback : Callback κ σ) (timer : κ → Timer)
    {events : List (ClockEvent κ σ)} {c : Clocked κ}
    (hallowed : Run.Along (Run.lift (step callback))
      (fun o e => ∀ c ∈ o, Served c e ∧ ProgramsNear callback c e) (some (boot timer)) events)
    (hc : after callback (boot timer) events = some c) :
    ∀ r ∈ c.returned, r.1 = UInt64.ofNat r.2 := by
  have h : ∃ last, Exact c last ∧ InTime c.hw last :=
    hallowed.lift_invariant (I := fun c => ∃ last, Exact c last ∧ InTime c.hw last)
      (fun _ _ _ hstep ⟨_, hexact, inTime⟩ => hexact.step inTime hstep.1 hstep.2)
      ⟨0, exact_boot timer⟩ c hc
  obtain ⟨last, hexact, -⟩ := h
  exact hexact.returned

open Clocked in
/-- A timer of 60000 microseconds, and the clock after the counter has wrapped. -/
theorem clock_true_after_wrap :
    ∃ c, after quiet (boot fun _ => Timer.unused)
        [.init () 60000 false, .start (), .wait 60100, .interrupt () 2, .wait 50000, .read] =
          some c ∧ ∀ r ∈ c.returned, r.1 = UInt64.ofNat r.2 := by
  have hallowed : Run.Along (Run.lift (step quiet))
      (fun o e => ∀ c ∈ o, Served c e ∧ ProgramsNear quiet c e) (some (boot fun _ => Timer.unused))
      [.init () 60000 false, .start (), .wait 60100, .interrupt () 2, .wait 50000, .read] := by
    decide +kernel
  exact ⟨_, rfl, clock_true quiet _ hallowed rfl⟩

open Clocked in
/-- A timer of 65530 microseconds: the interrupt comes after the wrap, and a period is lost. -/
theorem far_timer_loses_period :
    ∃ c, after quiet (boot fun _ => Timer.unused)
        [.init () 65530 false, .start (), .wait 66530, .interrupt () 1] = some c ∧
      Run.Along (Run.lift (step quiet)) (fun o e => ∀ c ∈ o, Served c e)
        (some (boot fun _ => Timer.unused))
        [.init () 65530 false, .start (), .wait 66530, .interrupt () 1] ∧
      (994, 66530) ∈ c.returned := by
  refine ⟨_, rfl, ?_, ?_⟩
  · decide +kernel
  · decide +kernel

end Tm4cPilot.HrTimer
