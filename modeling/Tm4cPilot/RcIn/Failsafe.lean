import Tm4cPilot.RcIn.Decoder

/-!
# The failsafe of the RC input

`dev_rc_in_read` reads the clock, and then compares it in a critical section with the time of the
last frame.  A frame may be published in between.
-/

namespace Tm4cPilot.RcIn

open Function Option Run

/-- `RC_LOST_DELAY`, in microseconds. -/
def rcLostDelay : UInt64 := 1000000

/-- The critical section of `dev_rc_in_read`. -/
def RcInData.checkLost (data : RcInData) (curTime : UInt64) : RcInData :=
  if data.channelCount ≠ 0 ∧ data.rcFailsafe = false ∧
      rcLostDelay ≤ curTime - data.timestampLastSignal then
    { data with rcFailsafe := true }
  else data

namespace RcInData

variable (data : RcInData) (curTime : UInt64)

@[simp] theorem timestampLastSignal_checkLost :
    (data.checkLost curTime).timestampLastSignal = data.timestampLastSignal := by
  rw [checkLost]
  split_ifs <;> rfl

@[simp] theorem channelCount_checkLost :
    (data.checkLost curTime).channelCount = data.channelCount := by
  rw [checkLost]
  split_ifs <;> rfl

theorem rcFailsafe_checkLost : (data.checkLost curTime).rcFailsafe = true ↔
    data.rcFailsafe = true ∨
      data.channelCount ≠ 0 ∧ rcLostDelay ≤ curTime - data.timestampLastSignal := by
  rw [checkLost]
  split_ifs with lost
  · exact iff_of_true rfl (Or.inr ⟨lost.1, lost.2.2⟩)
  · refine ⟨Or.inl, ?_⟩
    rintro (raised | ⟨count, passed⟩)
    · exact raised
    · by_contra lowered
      exact lost ⟨count, Bool.eq_false_iff.mpr lowered, passed⟩

end RcInData

theorem rcLostDelay_le_sub {frame curTime : UInt64} (le : frame ≤ curTime) :
    rcLostDelay ≤ curTime - frame ↔ frame.toNat + 1000000 ≤ curTime.toNat := by
  rw [UInt64.le_iff_toNat_le, UInt64.toNat_sub_of_le _ _ le]
  change 1000000 ≤ _ ↔ _
  omega

namespace Decoder

variable (d : Decoder)

theorem rcInData_copyData (stamp : UInt64) :
    (d.copyData stamp).2.rcInData = (d.copyData stamp).1.getD d.rcInData := by
  rw [copyData]
  split_ifs <;> rfl

theorem stamp_of_copyData {stamp : UInt64} {data : RcInData}
    (published : (d.copyData stamp).1 = some data) :
    data.timestampLastSignal = stamp ∧ data.rcFailsafe = false := by
  rw [copyData] at published
  split_ifs at published
  rw [← some.inj published]
  exact ⟨rfl, rfl⟩

theorem rcInData_pinIntHandler (e : Edge) :
    (d.pinIntHandler e).2.rcInData = (d.pinIntHandler e).1.getD d.rcInData := by
  simp only [pinIntHandler]
  cases d.curState <;> dsimp only <;> split_ifs <;> first | rfl | exact rcInData_copyData _ _

theorem stamp_of_pinIntHandler {e : Edge} {data : RcInData}
    (published : (d.pinIntHandler e).1 = some data) :
    data.timestampLastSignal = e.stamp ∧ data.rcFailsafe = false := by
  simp only [pinIntHandler] at published
  cases state : d.curState <;> rw [state] at published <;> dsimp only at published <;>
    split_ifs at published <;> exact stamp_of_copyData _ published

end Decoder

/-- Where a call of `dev_rc_in_read` is. -/
inductive ReadPhase where
  | idle
  | sampled (curTime : UInt64)
  | checked
  deriving DecidableEq, Repr

/-- The driver, the clock, the last publication and the readers. -/
structure RcSystem (κ : Type*) where
  now : UInt64
  decoder : Decoder
  lastFrame : Option UInt64
  phase : κ → ReadPhase
  data : κ → Option RcInData

/-- What can happen; the clock does not go back. -/
inductive RcEvent (κ : Type*) where
  | wait (t : UInt64)
  /-- an interrupt of the pin, which is done at a time -/
  | edge (isPositive : Bool) (t : UInt64)
  /-- a thread calls `dev_rc_in_read`, and reads the clock -/
  | sample (c : κ)
  /-- the critical section of `check_lost` -/
  | check (c : κ)
  /-- the critical section of `dev_rc_in_read` -/
  | copy (c : κ)
  deriving DecidableEq, Repr

namespace RcSystem

variable {κ : Type*} [DecidableEq κ]

/-- The driver at its start. -/
def init (now : UInt64) : RcSystem κ := ⟨now, Decoder.init, none, fun _ => .idle, fun _ => none⟩

def step (s : RcSystem κ) : RcEvent κ → RcSystem κ
  | .wait t => { s with now := max s.now t }
  | .edge isPositive t =>
    let now := max s.now t
    let handled := s.decoder.pinIntHandler ⟨isPositive, s.now, now⟩
    { s with
      now
      decoder := handled.2
      lastFrame := if handled.1.isSome then some now else s.lastFrame }
  | .sample c =>
    match s.phase c with
    | .idle => { s with phase := update s.phase c (.sampled s.now) }
    | _ => s
  | .check c =>
    match s.phase c with
    | .sampled curTime =>
      { s with
        decoder := { s.decoder with rcInData := s.decoder.rcInData.checkLost curTime }
        phase := update s.phase c .checked }
    | _ => s
  | .copy c =>
    match s.phase c with
    | .checked =>
      { s with
        data := update s.data c (some s.decoder.rcInData)
        phase := update s.phase c .idle }
    | _ => s

/-- The failsafe is raised only on loss. -/
def RaisedRightly (s : RcSystem κ) (e : RcEvent κ) : Prop :=
  s.decoder.rcInData.rcFailsafe = false → (s.step e).decoder.rcInData.rcFailsafe = true →
    ∃ frame, s.lastFrame = some frame ∧ frame.toNat + 1000000 ≤ s.now.toNat

/-- On loss a check raises the failsafe. -/
def RaisedPromptly (s : RcSystem κ) : RcEvent κ → Prop
  | .check c =>
    match s.phase c, s.lastFrame with
    | .sampled curTime, some frame => frame.toNat + 1000000 ≤ curTime.toNat →
        (s.step (.check c)).decoder.rcInData.rcFailsafe = true
    | _, _ => True
  | _ => True

/-- A check that could raise the failsafe follows no publication in the read, unless long past, and
a long past frame has a channel. -/
def Undisturbed (s : RcSystem κ) : RcEvent κ → Prop
  | .check c =>
    match s.phase c, s.lastFrame with
    | .sampled curTime, some frame =>
      (s.decoder.rcInData.channelCount ≠ 0 → s.decoder.rcInData.rcFailsafe = false →
        frame ≤ curTime ∨ frame.toNat + 1000000 ≤ s.now.toNat) ∧
      (frame.toNat + 1000000 ≤ curTime.toNat → s.decoder.rcInData.channelCount ≠ 0)
    | _, _ => True
  | _ => True

instance (s : RcSystem κ) (e : RcEvent κ) : Decidable (s.Undisturbed e) :=
  match e with
  | .check c => by
    rw [Undisturbed]
    split <;> infer_instance
  | .wait _ | .edge _ _ | .sample _ | .copy _ => inferInstanceAs (Decidable True)

/-- The data has the time of the last frame. -/
structure Sound (s : RcSystem κ) : Prop where
  stamp : ∀ frame, s.lastFrame = some frame → s.decoder.rcInData.timestampLastSignal = frame
  count : s.lastFrame = none → s.decoder.rcInData.channelCount = 0
  sampled : ∀ c curTime, s.phase c = .sampled curTime → curTime ≤ s.now

theorem le_max_now (now t : UInt64) : now ≤ max now t := by
  change now ≤ if now ≤ t then t else now
  split_ifs with later
  exacts [later, UInt64.le_refl now]

variable {s : RcSystem κ}

theorem Sound.sampled_update (sound : s.Sound) (c : κ) {next : ReadPhase}
    (valid : ∀ curTime, next = .sampled curTime → curTime ≤ s.now) :
    ∀ c' curTime, update s.phase c next c' = .sampled curTime → curTime ≤ s.now := by
  intro c' curTime phase
  rcases eq_or_ne c' c with rfl | other
  · rw [update_self] at phase
    exact valid curTime phase
  · rw [update_of_ne other] at phase
    exact sound.sampled c' curTime phase

theorem Sound.step (sound : s.Sound) (e : RcEvent κ) : (s.step e).Sound := by
  cases e with
  | wait t =>
    exact ⟨sound.stamp, sound.count, fun c curTime phase =>
      UInt64.le_trans (sound.sampled c curTime phase) (le_max_now ..)⟩
  | edge isPositive t =>
    have sampled : ∀ c curTime, s.phase c = .sampled curTime → curTime ≤ max s.now t :=
      fun c curTime phase => UInt64.le_trans (sound.sampled c curTime phase) (le_max_now ..)
    cases published : (s.decoder.pinIntHandler ⟨isPositive, s.now, max s.now t⟩).1 with
    | none =>
      refine ⟨?_, ?_, sampled⟩ <;>
        simp only [RcSystem.step, Decoder.rcInData_pinIntHandler, published, getD_none,
          isSome_none, Bool.false_eq_true, if_false]
      exacts [sound.stamp, sound.count]
    | some data =>
      refine ⟨?_, ?_, sampled⟩ <;>
        simp only [RcSystem.step, Decoder.rcInData_pinIntHandler, published, getD_some,
          isSome_some, if_true]
      · intro frame same
        rw [(s.decoder.stamp_of_pinIntHandler published).1]
        exact some.inj same
      · nofun
  | sample c =>
    rw [RcSystem.step]
    split
    · refine ⟨sound.stamp, sound.count, sound.sampled_update c ?_⟩
      rintro curTime ⟨⟩
      exact UInt64.le_refl _
    · exact sound
  | check c =>
    rw [RcSystem.step]
    split
    · refine ⟨?_, ?_, sound.sampled_update c nofun⟩ <;>
        simp only [RcInData.timestampLastSignal_checkLost, RcInData.channelCount_checkLost]
      exacts [sound.stamp, sound.count]
    · exact sound
  | copy c =>
    rw [RcSystem.step]
    split
    · exact ⟨sound.stamp, sound.count, sound.sampled_update c nofun⟩
    · exact sound

/-! ## When the failsafe is raised -/

variable {e : RcEvent κ}

theorem exists_check_of_raised (lowered : s.decoder.rcInData.rcFailsafe = false)
    (raised : (s.step e).decoder.rcInData.rcFailsafe = true) :
    ∃ c curTime, e = .check c ∧ s.phase c = .sampled curTime ∧
      s.decoder.rcInData.channelCount ≠ 0 ∧
      rcLostDelay ≤ curTime - s.decoder.rcInData.timestampLastSignal := by
  have same : s.decoder.rcInData.rcFailsafe ≠ true := Bool.eq_false_iff.mp lowered
  cases e with
  | wait t => exact absurd raised same
  | edge isPositive t =>
    rw [step] at raised
    simp only [Decoder.rcInData_pinIntHandler] at raised
    cases published : (s.decoder.pinIntHandler ⟨isPositive, s.now, max s.now t⟩).1 with
    | none => rw [published] at raised; exact absurd raised same
    | some data =>
      rw [published, getD_some, (s.decoder.stamp_of_pinIntHandler published).2] at raised
      exact absurd raised Bool.false_ne_true
  | sample c =>
    rw [step] at raised
    split at raised <;> exact absurd raised same
  | check c =>
    rw [step] at raised
    split at raised
    · next curTime phase =>
      exact ⟨c, curTime, rfl, phase,
        ((RcInData.rcFailsafe_checkLost ..).mp raised).resolve_left same⟩
    · exact absurd raised same
  | copy c =>
    rw [step] at raised
    split at raised <;> exact absurd raised same

theorem Sound.raisedRightly (sound : s.Sound) (undisturbed : s.Undisturbed e) :
    s.RaisedRightly e := by
  intro lowered raised
  obtain ⟨c, curTime, rfl, phase, count, passed⟩ := exists_check_of_raised lowered raised
  cases last : s.lastFrame with
  | none => exact absurd (sound.count last) count
  | some frame =>
    refine ⟨frame, rfl, ?_⟩
    rw [sound.stamp frame last] at passed
    simp only [Undisturbed, phase, last] at undisturbed
    rcases undisturbed.1 count lowered with before | passed'
    · exact ((rcLostDelay_le_sub before).mp passed).trans
        (UInt64.le_iff_toNat_le.mp (sound.sampled c curTime phase))
    · exact passed'

theorem Sound.raisedPromptly (sound : s.Sound) (undisturbed : s.Undisturbed e) :
    s.RaisedPromptly e := by
  cases e with
  | check c =>
    rw [RaisedPromptly]
    split
    · next curTime frame phase last =>
      intro past
      simp only [Undisturbed, phase, last] at undisturbed
      have before : frame ≤ curTime :=
        UInt64.le_iff_toNat_le.mpr ((Nat.le_add_right ..).trans past)
      simp only [RcSystem.step, phase]
      refine (RcInData.rcFailsafe_checkLost ..).mpr (Or.inr ⟨undisturbed.2 past, ?_⟩)
      rw [sound.stamp frame last]
      exact (rcLostDelay_le_sub before).mpr past
    · trivial
  | _ => trivial

/-- If no frame is published during a read, and frames have channels, the failsafe is raised exactly
when the signal is lost. -/
theorem failsafe_raised_on_loss (now : UInt64) (events : List (RcEvent κ))
    (undisturbed : Run.Along step Undisturbed (init now) events) :
    Run.Along step (fun s e => s.RaisedRightly e ∧ s.RaisedPromptly e) (init now) events := by
  have start : (init now : RcSystem κ).Sound := ⟨nofun, fun _ => rfl, nofun⟩
  exact undisturbed.of_invariant (fun s e _ sound => sound.step e)
    (fun s e allowed sound => ⟨sound.raisedRightly allowed, sound.raisedPromptly allowed⟩) start

/-- A frame of one channel. -/
def channel : List (RcEvent Unit) :=
  [.edge true 0, .wait 10000, .edge false 0, .wait 10400, .edge true 0, .wait 11500, .edge false 0,
    .wait 11900, .edge true 0, .wait 21899]

/-- The signal is lost. -/
def lostSignal : List (RcEvent Unit) :=
  channel ++ [.wait 21900, .edge false 0, .wait 1021900, .sample (), .check (), .copy ()]

theorem failsafe_raised_on_lostSignal :
    ((run step (init 0) lostSignal).data ()).map RcInData.rcFailsafe = some true ∧
      Run.Along step (fun s e => s.RaisedRightly e ∧ s.RaisedPromptly e) (init 0) lostSignal :=
  ⟨by decide +kernel, failsafe_raised_on_loss 0 lostSignal (by decide +kernel)⟩

/-- A frame is published during a read. -/
def frameInRead : List (RcEvent Unit) := channel ++ [.sample (), .wait 21900, .edge false 0]

/-- A frame without channels. -/
def noChannels : List (RcEvent Unit) :=
  [.edge true 0, .wait 10000, .edge false 0, .wait 10400, .edge true 0, .wait 20400, .edge false 0,
    .wait 1020400, .sample ()]

/-- The failsafe is raised at the time of the last frame, or not at all. -/
theorem failsafe_wrong :
    ((run step (init 0) frameInRead).decoder.rcInData.rcFailsafe = false ∧
      ((run step (init 0) frameInRead).step (.check ())).decoder.rcInData.rcFailsafe = true ∧
      (run step (init 0) frameInRead).lastFrame = some 21900 ∧
      (run step (init 0) frameInRead).now = 21900) ∧
    ((run step (init 0) noChannels).lastFrame = some 20400 ∧
      (run step (init 0) noChannels).phase () = .sampled 1020400 ∧
      ((run step (init 0) noChannels).step (.check ())).decoder.rcInData.rcFailsafe =
        false) := by
  decide +kernel

end RcSystem

end Tm4cPilot.RcIn
