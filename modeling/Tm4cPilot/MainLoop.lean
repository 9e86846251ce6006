import Mathlib.Tactic

/-!
# The main loop scheduler

`AP_Scheduler::run` goes through the tasks once and runs those that are due, as long as the time
suffices.  The clock goes on only while a task runs.
-/

namespace Tm4cPilot.MainLoop

open List

/-- `AP_Scheduler::Task`; `ticks` is the loop rate by `rate_hz`. -/
structure Task where
  ticks : UInt16
  maxTimeMicros : UInt16
  deriving DecidableEq

def Task.intervalTicks (task : Task) : UInt16 := if task.ticks < 1 then 1 else task.ticks

/-- A task with its `_last_run`, and the time it takes. -/
structure Turn where
  task : Task
  lastRun : UInt16
  micros : UInt32
  deriving DecidableEq

/-- The interval has passed. -/
def Turn.Due (turn : Turn) (tickCounter : UInt16) : Prop :=
  turn.task.intervalTicks ≤ tickCounter - turn.lastRun
deriving Decidable

/-- The loop of `run`: for each task, whether it is run. -/
def loop (tickCounter : UInt16) : UInt32 → UInt32 → List Turn → List (Turn × Bool)
  | _, _, [] => []
  | now, timeAvailable, turn :: turns =>
    if turn.Due tickCounter ∧ turn.task.maxTimeMicros.toUInt32 ≤ timeAvailable then
      let timeTaken := now + turn.micros - now
      (turn, true) ::
        if timeAvailable ≤ timeTaken then turns.map (·, false)
        else loop tickCounter (now + turn.micros) (timeAvailable - timeTaken) turns
    else (turn, false) :: loop tickCounter now timeAvailable turns

/-- The turns of the tasks, and `_last_run` after them. -/
def run (tickCounter : UInt16) (now timeAvailable : UInt32) (turns : List Turn) :
    List (Turn × Bool) × List UInt16 :=
  let log := loop tickCounter now timeAvailable turns
  (log, log.map fun x => if x.2 then tickCounter else x.1.lastRun)

/-- The time a turn takes. -/
def duration (x : Turn × Bool) : ℕ := if x.2 then x.1.micros.toNat else 0

/-- The time of the turns. -/
def time (log : List (Turn × Bool)) : ℕ := (log.map duration).sum

/-- A task is run exactly if due, unless the time does not suffice or none is left. -/
def Turn.Right (tickCounter : UInt16) (left : ℕ) : Turn × Bool → Prop
  | (turn, true) => turn.Due tickCounter
  | (turn, false) => turn.Due tickCounter → left < turn.task.maxTimeMicros.toNat ∨ left = 0

/-- The tasks of a run keep the budget. -/
def Kept (tickCounter : UInt16) (available : ℕ) (log : List (Turn × Bool)) : Prop :=
  time log ≤ available ∧ ∀ before x after, log = before ++ x :: after →
    Turn.Right tickCounter (available - time before) x

variable {tickCounter : UInt16} {available : ℕ} {x : Turn × Bool} {log : List (Turn × Bool)}

theorem Kept.cons (right : Turn.Right tickCounter available x) (enough : duration x ≤ available)
    (kept : Kept tickCounter (available - duration x) log) : Kept tickCounter available (x :: log) := by
  obtain ⟨budget, turns⟩ := kept
  have sum (log : List (Turn × Bool)) : time (x :: log) = duration x + time log := rfl
  constructor
  · rw [sum]
    omega
  · rintro (_ | ⟨y, before⟩) z after split
    · obtain ⟨rfl, -⟩ := cons_eq_cons.mp split
      exact right
    · obtain ⟨rfl, rest⟩ := cons_eq_cons.mp split
      rw [sum, ← Nat.sub_sub]
      exact turns before z after rest

theorem kept_map_false (turns : List Turn) : Kept tickCounter 0 (turns.map (·, false)) := by
  induction turns with
  | nil => exact ⟨le_rfl, by simp⟩
  | cons turn turns ih => exact ih.cons (fun _ => .inr rfl) le_rfl

theorem kept_loop (turns : List Turn) (now timeAvailable : UInt32)
    (allowed : ∀ turn ∈ turns, turn.micros.toNat ≤ turn.task.maxTimeMicros.toNat) :
    Kept tickCounter timeAvailable.toNat (loop tickCounter now timeAvailable turns) := by
  induction turns generalizing now timeAvailable with
  | nil => exact ⟨Nat.zero_le _, by simp [loop]⟩
  | cons turn turns ih =>
    have allowed' := fun turn h => allowed turn (mem_cons_of_mem _ h)
    have taken : now + turn.micros - now = turn.micros := by
      rw [UInt32.add_comm, UInt32.add_sub_cancel]
    rw [loop]
    simp only [taken, UInt32.le_iff_toNat_le, UInt16.toNat_toUInt32]
    split_ifs with runs exhausted
    · have enough := (allowed turn mem_cons_self).trans runs.2
      apply Kept.cons (x := (turn, true)) runs.1 enough
      rw [duration, if_pos rfl, Nat.sub_eq_zero_of_le exhausted]
      exact kept_map_false turns
    · have enough := (allowed turn mem_cons_self).trans runs.2
      apply Kept.cons (x := (turn, true)) runs.1 enough
      have rest := ih (now + turn.micros) (timeAvailable - turn.micros) allowed'
      rwa [UInt32.toNat_sub_of_le _ _ (UInt32.le_iff_toNat_le.mpr enough)] at rest
    · apply Kept.cons (x := (turn, false)) _ (Nat.zero_le _) (ih now timeAvailable allowed')
      intro due
      exact .inl (Nat.not_le.mp fun enough => runs ⟨due, enough⟩)

theorem map_fst_loop (turns : List Turn) (now timeAvailable : UInt32) :
    (loop tickCounter now timeAvailable turns).map Prod.fst = turns := by
  induction turns generalizing now timeAvailable with
  | nil => rfl
  | cons turn turns ih =>
    rw [loop]
    split_ifs with runs
    · dsimp only
      split_ifs with exhausted
      · simp [Function.comp_def]
      · rw [map_cons, ih]
    · rw [map_cons, ih]

theorem Turn.Due.intervalTicks_le {turn : Turn} {ticks ran : ℕ} (due : turn.Due (.ofNat ticks))
    (last : turn.lastRun = .ofNat ran) (past : ran ≤ ticks) :
    turn.task.intervalTicks.toNat ≤ ticks - ran := by
  rw [Turn.Due, last, UInt16.le_iff_toNat_le, UInt16.toNat_sub, UInt16.toNat_ofNat',
    UInt16.toNat_ofNat'] at due
  omega

/-- **The scheduler keeps its time budget.** Each task has one turn; those that are run are due and
take no more than the available time; a due task is skipped only if it could take more time than is
left, or none is left. -/
theorem budget_kept (tickCounter : UInt16) (now timeAvailable : UInt32) (turns : List Turn)
    (allowed : ∀ turn ∈ turns, turn.micros.toNat ≤ turn.task.maxTimeMicros.toNat) :
    let log := (run tickCounter now timeAvailable turns).1
    log.map Prod.fst = turns ∧ time log ≤ timeAvailable.toNat ∧
      ∀ before turn runs after, log = before ++ (turn, runs) :: after →
        (runs = true → ∀ ticks ran : ℕ, ran ≤ ticks → tickCounter = .ofNat ticks →
          turn.lastRun = .ofNat ran → turn.task.intervalTicks.toNat ≤ ticks - ran) ∧
        (runs = false → turn.Due tickCounter →
          timeAvailable.toNat - time before < turn.task.maxTimeMicros.toNat ∨
            timeAvailable.toNat - time before = 0) := by
  obtain ⟨budget, turnsRight⟩ := kept_loop turns now timeAvailable allowed
  refine ⟨map_fst_loop turns now timeAvailable, budget, fun before turn runs after split => ?_⟩
  have right := turnsRight before (turn, runs) after split
  constructor
  · rintro rfl ticks ran past rfl last
    exact right.intervalTicks_le last past
  · rintro rfl
    exact right

theorem budget_kept_two : time (run 3 0xfffffff0 40 [⟨⟨1, 30⟩, 0, 20⟩, ⟨⟨2, 30⟩, 0, 20⟩]).1 ≤ 40 :=
  (budget_kept 3 0xfffffff0 40 _ (by decide)).2.1

/-- The second task could take no time, but the first one has taken all there is. -/
theorem due_task_skipped :
    (run 1 0 10 [⟨⟨1, 10⟩, 0, 10⟩, ⟨⟨1, 0⟩, 0, 0⟩]).1 =
        [(⟨⟨1, 10⟩, 0, 10⟩, true)] ++ [(⟨⟨1, 0⟩, 0, 0⟩, false)] ∧
      (⟨⟨1, 0⟩, 0, 0⟩ : Turn).Due 1 ∧ ¬ 10 - time [(⟨⟨1, 10⟩, 0, 10⟩, true)] < 0 := by
  decide

end Tm4cPilot.MainLoop
