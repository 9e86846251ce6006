import Tm4cPilot.RcIn.Decoder

/-!
# Frames of the RC input

A PPM signal is a sequence of low parts, each followed by a high part; a long high part ends a
frame.  The decoder waits for a sync, publishes the channels up to the next one, and waits again, so
it never publishes two frames that follow each other.
-/

namespace Tm4cPilot.RcIn

open List Decoder Nat UInt16 Function

/-- A low part and the high part after it, in microseconds. -/
structure Part where
  low : ℕ
  high : ℕ
  deriving DecidableEq, Repr

/-- An edge at a time. -/
def edgeAt (stamp : ℕ → UInt64) (isPositive : Bool) (t : ℕ) : Edge :=
  ⟨isPositive, UInt64.ofNat t, stamp t⟩

/-- The edges of the parts. -/
def edgesFrom (stamp : ℕ → UInt64) (t : ℕ) : List Part → List Edge
  | [] => []
  | p :: parts =>
    edgeAt stamp true (t + p.low) :: edgeAt stamp false (t + p.low + p.high) ::
      edgesFrom stamp (t + p.low + p.high) parts

/-- The edges of a signal. -/
def signal (stamp : ℕ → UInt64) (t : ℕ) (parts : List Part) : List Edge :=
  edgeAt stamp false t :: edgesFrom stamp t parts

/-- The part ends a frame. -/
def Part.IsSync (p : Part) : Prop := 2500 ≤ p.high % 2 ^ 32
deriving Decidable

/-- The value of a channel. -/
def Part.value (p : Part) : UInt16 := UInt16.ofNat (p.low + p.high)

/-- The channels since the sync, if there was one. -/
abbrev Receiver := Option (List UInt16)

/-- The receiver takes a part. -/
def receive (r : Receiver) (p : Part) : Option (List UInt16) × Receiver :=
  match r with
  | none => (none, if p.IsSync then some [] else none)
  | some channels =>
    if p.IsSync then (some channels, none)
    else if channels.length + 1 < rcInChNum then (none, some (channels ++ [p.value]))
    else (none, none)

/-- What the receiver publishes. -/
def receptions (r : Receiver) (parts : List Part) : List (List UInt16) :=
  (Run.replies receive r parts).reduceOption

/-- The values with zeros behind them. -/
def padded (channels : List UInt16) : List UInt16 :=
  channels ++ replicate (rcInChNum - channels.length) 0

/-- The number of channels and the values. -/
def RcInData.channels (data : RcInData) : ℕ × List UInt16 := (data.channelCount, data.values)

/-! ## The decoder is a receiver -/

/-- The decoder has the channels of the receiver. -/
def Follows (d : Decoder) (r : Receiver) (t : ℕ) : Prop :=
  match r with
  | none => d.curState = .matchEndPositive
  | some channels => d.curState = .matchPositive ∧ d.pulseIndex = channels.length ∧
      channels.length < rcInChNum ∧ d.lastTick = (UInt64.ofNat t).toUInt32.toUInt64 ∧
      ∀ i (h : i < channels.length), d.pulseArrayTemp i = channels[i]

variable {d : Decoder}

theorem copyData_channels {channels : List UInt16} (stamp : UInt64)
    (index : d.pulseIndex = channels.length) (space : channels.length < rcInChNum)
    (temp : ∀ i (h : i < channels.length), d.pulseArrayTemp i = channels[i]) :
    (d.copyData stamp).1.map RcInData.channels = some (channels.length, padded channels) := by
  rw [copyData, index, if_pos space]
  simp only [Option.map_some, RcInData.channels]
  congr 2
  apply ext_getElem
  · rw [length_map, length_range, padded, length_append, length_replicate]
    omega
  · intro i h _
    rw [getElem_map, getElem_range]
    split_ifs with inside
    · simp only [padded, getElem_append_left inside, temp i inside]
    · simp only [padded, getElem_append_right (not_lt.mp inside), getElem_replicate]

variable {t : ℕ} {p : Part}

theorem isSync_iff (last : d.lastTick = (UInt64.ofNat t).toUInt32.toUInt64) :
    endPulse ≤ d.pulse (UInt64.ofNat (t + p.high)) ↔ p.IsSync := by
  rw [UInt32.le_iff_toNat_le, d.pulse_eq last (Nat.le_add_right ..), Nat.add_sub_cancel_left]
  exact Iff.rfl

theorem pulse_add_eq_value (last : d.lastTick = (UInt64.ofNat t).toUInt32.toUInt64)
    (low : d.lastNegativePulse.toNat = p.low % 2 ^ 32) :
    (d.pulse (UInt64.ofNat (t + p.high)) + d.lastNegativePulse).toUInt16 = p.value := by
  apply toNat.inj
  rw [UInt32.toNat_toUInt16, UInt32.toNat_add, d.pulse_eq last (Nat.le_add_right ..), low,
    Part.value, toNat_ofNat', Nat.add_sub_cancel_left]
  omega

theorem rise_of_waiting (waiting : d.curState = .matchEndPositive) (stamp : ℕ → UInt64) (t : ℕ) :
    d.pinIntHandler (edgeAt stamp true t) = (none, { d with
      lastTick := (UInt64.ofNat t).toUInt32.toUInt64
      curState := .matchEndNegative }) := by
  simp only [pinIntHandler, waiting, edgeAt, if_true]

theorem rise_of_matching (matching : d.curState = .matchPositive) (stamp : ℕ → UInt64) (t : ℕ) :
    d.pinIntHandler (edgeAt stamp true t) = (none, { d with
      lastTick := (UInt64.ofNat t).toUInt32.toUInt64
      curState := .matchNegative
      lastNegativePulse := d.pulse (UInt64.ofNat t) }) := by
  simp only [pinIntHandler, matching, edgeAt, Bool.not_true, Bool.false_eq_true, if_false]

theorem fall_of_waiting (waiting : d.curState = .matchEndNegative)
    (last : d.lastTick = (UInt64.ofNat t).toUInt32.toUInt64) (stamp : ℕ → UInt64) (p : Part) :
    (d.pinIntHandler (edgeAt stamp false (t + p.high))).1 = none ∧
      Follows (d.pinIntHandler (edgeAt stamp false (t + p.high))).2
        (if p.IsSync then some [] else none) (t + p.high) := by
  simp only [pinIntHandler, waiting, edgeAt, Bool.false_eq_true, if_false]
  by_cases sync : p.IsSync
  · rw [if_neg (UInt32.not_lt.mpr ((isSync_iff last).mpr sync)), if_pos sync]
    exact ⟨rfl, rfl, rfl, by decide, rfl, nofun⟩
  · rw [if_pos (UInt32.not_le.mp fun h => sync ((isSync_iff last).mp h)), if_neg sync]
    exact ⟨rfl, rfl⟩

theorem fall_of_matching {channels : List UInt16} (matching : d.curState = .matchNegative)
    (index : d.pulseIndex = channels.length) (space : channels.length < rcInChNum)
    (last : d.lastTick = (UInt64.ofNat t).toUInt32.toUInt64)
    (low : d.lastNegativePulse.toNat = p.low % 2 ^ 32)
    (temp : ∀ i (h : i < channels.length), d.pulseArrayTemp i = channels[i]) (stamp : ℕ → UInt64) :
    (d.pinIntHandler (edgeAt stamp false (t + p.high))).1.map RcInData.channels =
        (receive (some channels) p).1.map (fun channels => (channels.length, padded channels)) ∧
      Follows (d.pinIntHandler (edgeAt stamp false (t + p.high))).2
        (receive (some channels) p).2 (t + p.high) := by
  simp only [pinIntHandler, matching, edgeAt, Bool.false_eq_true, if_false, receive]
  by_cases sync : p.IsSync
  · simp only [if_pos ((isSync_iff last).mpr sync), if_pos sync]
    exact ⟨copyData_channels (stamp (t + p.high)) index space temp, curState_copyData ..⟩
  · have short := fun h => sync ((isSync_iff last).mp h)
    simp only [if_neg short, if_neg sync]
    have value := pulse_add_eq_value last low
    by_cases more : channels.length + 1 < rcInChNum
    · rw [if_neg (by rw [index]; exact not_le.mpr more), if_pos more]
      refine ⟨rfl, rfl, ?_, ?_, rfl, ?_⟩
      · rw [length_append, length_singleton, ← index]
      · rwa [length_append, length_singleton]
      · intro i h
        rw [index, value]
        dsimp only
        rw [length_append, length_singleton] at h
        rcases Nat.lt_succ_iff_lt_or_eq.mp h with before | rfl
        · rw [update_of_ne before.ne, temp i before, getElem_append_left before]
        · rw [update_self, getElem_concat_length rfl]
    · rw [if_pos (by rw [index]; exact not_lt.mp more), if_neg more, copyData,
        if_neg (by rwa [index])]
      exact ⟨rfl, rfl⟩

theorem Follows.part {r : Receiver} (follows : Follows d r t) (stamp : ℕ → UInt64) (p : Part) :
    let rise := d.pinIntHandler (edgeAt stamp true (t + p.low))
    let fall := rise.2.pinIntHandler (edgeAt stamp false (t + p.low + p.high))
    rise.1 = none ∧
      fall.1.map RcInData.channels =
        (receive r p).1.map (fun channels => (channels.length, padded channels)) ∧
      Follows fall.2 (receive r p).2 (t + p.low + p.high) := by
  cases r with
  | none =>
    rw [rise_of_waiting follows]
    dsimp only
    obtain ⟨nothing, next⟩ := fall_of_waiting (d := { d with
      lastTick := (UInt64.ofNat (t + p.low)).toUInt32.toUInt64
      curState := .matchEndNegative }) rfl rfl stamp p
    rw [nothing]
    exact ⟨rfl, rfl, next⟩
  | some channels =>
    obtain ⟨matching, index, space, last, temp⟩ := follows
    rw [rise_of_matching matching]
    refine ⟨rfl, fall_of_matching (d := { d with
      lastTick := (UInt64.ofNat (t + p.low)).toUInt32.toUInt64
      curState := .matchNegative
      lastNegativePulse := d.pulse (UInt64.ofNat (t + p.low)) }) rfl index space rfl ?_ temp stamp⟩
    rw [d.pulse_eq last (Nat.le_add_right ..), Nat.add_sub_cancel_left]

theorem Follows.publications {r : Receiver} (follows : Follows d r t) (stamp : ℕ → UInt64)
    (parts : List Part) :
    (d.publications (edgesFrom stamp t parts)).map RcInData.channels =
      (receptions r parts).map (fun channels => (channels.length, padded channels)) := by
  induction parts generalizing d r t with
  | nil => rfl
  | cons p parts ih =>
    obtain ⟨silent, reply, next⟩ := follows.part stamp p
    rw [edgesFrom, publications, Run.reduceOption_replies_cons, Run.reduceOption_replies_cons,
      silent, Option.toList_none, nil_append, map_append, ← Option.toList_map, reply]
    rw [receptions, Run.reduceOption_replies_cons, map_append, ← Option.toList_map]
    exact congrArg (_ ++ ·) (ih next)

theorem publications_signal (stamp : ℕ → UInt64) (t : ℕ) (parts : List Part) :
    (init.publications (signal stamp t parts)).map RcInData.channels =
      (receptions none parts).map (fun channels => (channels.length, padded channels)) := by
  have waits : Follows (init.pinIntHandler (edgeAt stamp false t)).2 none t := rfl
  exact waits.publications stamp parts

theorem receptions_cons (r : Receiver) (p : Part) (parts : List Part) :
    receptions r (p :: parts) = (receive r p).1.toList ++ receptions (receive r p).2 parts :=
  Run.reduceOption_replies_cons receive r p parts

theorem length_receptions_le (r : Receiver) (parts : List Part) :
    2 * (receptions r parts).length ≤ r.isSome.toNat + parts.countP (·.IsSync) := by
  induction parts generalizing r with
  | nil => exact zero_le _
  | cons p parts ih =>
    rw [receptions_cons, countP_cons, length_append]
    have rest := ih (receive r p).2
    have counts : (receive r p).1.toList.length * 2 + (receive r p).2.isSome.toNat ≤
        r.isSome.toNat + if p.IsSync then 1 else 0 := by
      cases r with
      | none => by_cases sync : p.IsSync <;> simp [receive, sync]
      | some channels =>
        by_cases sync : p.IsSync
        · simp [receive, sync]
        · simp only [receive, if_neg sync]
          split_ifs <;> simp
    simp only [decide_eq_true_eq]
    omega

section Channels

variable {channels : List Part} (short : ∀ c ∈ channels, ¬ c.IsSync) (parts : List Part)

include short

theorem receptions_none_append : receptions none (channels ++ parts) = receptions none parts := by
  induction channels with
  | nil => rfl
  | cons c channels ih =>
    rw [forall_mem_cons] at short
    rw [cons_append, receptions_cons, receive, if_neg short.1]
    exact ih short.2

theorem receptions_some_append {collected : List UInt16}
    (space : collected.length + channels.length < rcInChNum) :
    receptions (some collected) (channels ++ parts) =
      receptions (some (collected ++ channels.map Part.value)) parts := by
  induction channels generalizing collected with
  | nil => rw [map_nil, append_nil, nil_append]
  | cons c channels ih =>
    rw [forall_mem_cons] at short
    rw [length_cons] at space
    rw [cons_append, receptions_cons, receive, if_neg short.1, if_pos (by omega)]
    refine (ih short.2 ?_).trans ?_
    · rw [length_append, length_singleton]
      omega
    · rw [append_assoc, singleton_append, map_cons]

theorem receptions_full_append {collected : List UInt16} (space : collected.length < rcInChNum)
    (full : rcInChNum ≤ collected.length + channels.length) :
    receptions (some collected) (channels ++ parts) = receptions none parts := by
  induction channels generalizing collected with
  | nil => exact absurd full (by rw [length_nil]; omega)
  | cons c channels ih =>
    rw [length_cons] at full
    rw [forall_mem_cons] at short
    rw [cons_append, receptions_cons, receive, if_neg short.1]
    split_ifs with more
    · refine ih short.2 ?_ ?_
      · rwa [length_append, length_singleton]
      · rw [length_append, length_singleton]
        omega
    · exact receptions_none_append short.2 parts

end Channels

/-! ## Frames -/

/-- A frame of a PPM receiver. -/
structure PpmFrame where
  channels : List Part
  sync : Part
  channels_pos : 1 ≤ channels.length
  channels_le : channels.length ≤ rcInChNum
  channels_short : ∀ c ∈ channels, c.high < 2500
  sync_long : 2500 ≤ sync.high

namespace PpmFrame

variable (f : PpmFrame) (rest : List Part)

/-- The parts of the frame. -/
def parts : List Part := f.channels ++ [f.sync]

/-- The number of channels, and the intervals with zeros. -/
def expected : ℕ × List ℕ :=
  (f.channels.length,
    f.channels.map (fun c => c.low + c.high) ++ replicate (rcInChNum - f.channels.length) 0)

/-- The frame leaves room for a channel and ends. -/
def Fits : Prop := f.channels.length < rcInChNum ∧ f.sync.IsSync

variable {f}

theorem not_isSync {c : Part} (mem : c ∈ f.channels) : ¬ c.IsSync :=
  not_le.mpr ((mod_le _ _).trans_lt (f.channels_short c mem))

variable (f)

theorem countP_parts_le : f.parts.countP (·.IsSync) ≤ 1 := by
  have none_sync : f.channels.countP (·.IsSync) = 0 :=
    countP_eq_zero.mpr fun c mem => by
      rw [decide_eq_true_eq]
      exact not_isSync mem
  rw [parts, countP_append, none_sync, zero_add]
  exact countP_le_length

theorem receptions_none : receptions none (f.parts ++ rest) =
    receptions (if f.sync.IsSync then some [] else none) rest := by
  rw [PpmFrame.parts, append_assoc, receptions_none_append fun c => not_isSync]
  rfl

variable {f}

theorem Fits.receptions_some (fits : f.Fits) :
    receptions (some []) (f.parts ++ rest) =
      f.channels.map Part.value :: receptions none rest := by
  rw [PpmFrame.parts, append_assoc, receptions_some_append (fun c => not_isSync) _
    (by rw [length_nil, zero_add]; exact fits.1), nil_append, singleton_append,
    receptions_cons, receive, if_pos fits.2]
  rfl

theorem receptions_some_of_not_fits (large : ¬ f.Fits) : receptions (some []) f.parts = [] := by
  rw [PpmFrame.parts]
  by_cases space : f.channels.length < rcInChNum
  · rw [receptions_some_append (fun c => not_isSync) _ (by rwa [length_nil, zero_add]),
      receptions_cons, receive, if_neg fun sync => large ⟨space, sync⟩]
    split_ifs <;> rfl
  · rw [receptions_full_append (fun c => not_isSync) _ (by decide)
      (by rw [length_nil, zero_add]; exact not_lt.mp space)]
    rfl

end PpmFrame

/-- Every other entry, from the second on. -/
def alternate {α : Type*} : List α → List α
  | _ :: a :: l => a :: alternate l
  | _ => []

theorem mem_of_mem_alternate {α : Type*} {l : List α} {a : α} (mem : a ∈ alternate l) : a ∈ l := by
  induction l using alternate.induct with
  | case1 first b l ih =>
    rcases mem_cons.mp mem with rfl | rest
    · exact mem_cons_of_mem _ mem_cons_self
    · exact mem_cons_of_mem _ (mem_cons_of_mem _ (ih rest))
  | case2 l short =>
    rw [alternate.eq_2 l short] at mem
    cases mem

theorem receptions_frames {frames : List PpmFrame} (fits : ∀ f ∈ frames, f.Fits) :
    receptions none (frames.flatMap PpmFrame.parts) =
      (alternate frames).map (fun f => f.channels.map Part.value) := by
  induction frames using alternate.induct with
  | case1 first f frames ih =>
    simp only [forall_mem_cons] at fits
    rw [flatMap_cons, flatMap_cons, PpmFrame.receptions_none, if_pos fits.1.2,
      fits.2.1.receptions_some, ih fits.2.2]
    rfl
  | case2 frames short =>
    match frames, short with
    | [], _ => rfl
    | [f], _ =>
      rw [flatMap_singleton, ← append_nil f.parts, PpmFrame.receptions_none]
      rfl
    | _ :: _ :: _, short => exact absurd rfl (short _ _ _)

theorem length_receptions_lt (first : PpmFrame) (frames : List PpmFrame)
    (long : 2 ≤ frames.length) :
    (receptions none ((first :: frames).flatMap PpmFrame.parts)).length < frames.length := by
  have twice := length_receptions_le none ((first :: frames).flatMap PpmFrame.parts)
  have syncs : ∀ frames : List PpmFrame,
      (frames.flatMap PpmFrame.parts).countP (·.IsSync) ≤ frames.length := by
    intro frames
    induction frames with
    | nil => exact le_rfl
    | cons f frames ih =>
      rw [flatMap_cons, countP_append, length_cons, add_comm]
      exact Nat.add_le_add ih f.countP_parts_le
  have bound := syncs (first :: frames)
  rw [length_cons] at bound
  rw [Option.isSome_none, Bool.toNat_false] at twice
  omega

/-- What is published, as numbers. -/
def published (stamp : ℕ → UInt64) (t : ℕ) (frames : List PpmFrame) : List (ℕ × List ℕ) :=
  (Decoder.init.publications (signal stamp t (frames.flatMap PpmFrame.parts))).map
    fun data => (data.channelCount, data.values.map toNat)

theorem published_eq (stamp : ℕ → UInt64) (t : ℕ) (frames : List PpmFrame) :
    published stamp t frames = (receptions none (frames.flatMap PpmFrame.parts)).map
      fun channels => (channels.length, (padded channels).map toNat) := by
  have channels := congrArg (map (Prod.map id (map toNat)))
    (publications_signal stamp t (frames.flatMap PpmFrame.parts))
  rw [map_map, map_map] at channels
  exact channels

theorem padded_eq_expected_iff (f : PpmFrame) :
    ((f.channels.map Part.value).length, (padded (f.channels.map Part.value)).map toNat) =
      f.expected ↔ ∀ c ∈ f.channels, c.low + c.high < 65536 := by
  simp only [PpmFrame.expected, padded, length_map, Prod.mk.injEq, true_and, map_append,
    map_replicate, map_map, UInt16.toNat_zero, append_cancel_right_eq,
    map_inj_left, comp_apply, Part.value, UInt16.toNat_ofNat']
  exact forall₂_congr fun c _ => mod_eq_iff_lt (by decide)

theorem published_eq_alternate (stamp : ℕ → UInt64) (t : ℕ) {frames : List PpmFrame}
    (fits : ∀ f ∈ frames, f.Fits) (small : ∀ f ∈ frames, ∀ c ∈ f.channels, c.low + c.high < 65536) :
    published stamp t frames = (alternate frames).map PpmFrame.expected := by
  rw [published_eq, receptions_frames fits, map_map]
  apply map_congr_left
  intro f mem
  exact (padded_eq_expected_iff f).mpr (small f (mem_of_mem_alternate mem))

/-- All frames after the first are published only if there is at most one, with space for another
channel and times that can be measured. -/
theorem frames_published_iff (stamp : ℕ → UInt64) (t : ℕ) (first : PpmFrame)
    (frames : List PpmFrame) :
    published stamp t (first :: frames) = frames.map PpmFrame.expected ↔
      frames = [] ∨ ∃ f, frames = [f] ∧ f.channels.length < rcInChNum ∧
        2500 ≤ first.sync.high % 2 ^ 32 ∧ 2500 ≤ f.sync.high % 2 ^ 32 ∧
        ∀ c ∈ f.channels, c.low + c.high < 65536 := by
  rw [published_eq]
  match frames with
  | [] =>
    rw [flatMap_singleton, ← append_nil first.parts, PpmFrame.receptions_none]
    exact iff_of_true rfl (Or.inl rfl)
  | [f] =>
    rw [flatMap_cons, flatMap_singleton, PpmFrame.receptions_none]
    by_cases seen : first.sync.IsSync ∧ f.Fits
    · rw [if_pos seen.1, ← append_nil f.parts, seen.2.receptions_some]
      refine (cons_eq_cons.trans (and_iff_left rfl)).trans
        ((padded_eq_expected_iff f).trans ⟨?_, ?_⟩)
      · exact fun small => Or.inr ⟨f, rfl, seen.2.1, seen.1, seen.2.2, small⟩
      · rintro (⟨⟨⟩⟩ | ⟨_, ⟨⟩, _, _, _, small⟩)
        exact small
    · have silent : receptions (if first.sync.IsSync then some [] else none) f.parts = [] := by
        split_ifs with sync
        · exact PpmFrame.receptions_some_of_not_fits fun fits => seen ⟨sync, fits⟩
        · rw [← append_nil f.parts, PpmFrame.receptions_none]
          rfl
      rw [silent]
      refine iff_of_false (by simp) ?_
      rintro (⟨⟨⟩⟩ | ⟨_, ⟨⟩, space, sync, sync', _⟩)
      exact seen ⟨sync, space, sync'⟩
  | f :: g :: frames =>
    have fewer := length_receptions_lt first (f :: g :: frames) (by simp)
    refine iff_of_false (fun same => fewer.ne ?_) ?_
    · simpa only [length_map] using congrArg length same
    · rintro (⟨⟨⟩⟩ | ⟨_, ⟨⟩, _⟩)

/-- A frame of one channel. -/
def oneChannel : PpmFrame where
  channels := [⟨400, 1100⟩]
  sync := ⟨400, 10000⟩
  channels_pos := by decide
  channels_le := by decide
  channels_short := by decide
  sync_long := by decide

def laterChannel : PpmFrame :=
  { oneChannel with
    channels := [⟨400, 1200⟩]
    channels_pos := by decide
    channels_le := by decide
    channels_short := by decide }

theorem oneChannel_alternate :
    published UInt64.ofNat 0 [oneChannel, laterChannel, laterChannel, oneChannel] =
      [laterChannel.expected, oneChannel.expected] :=
  published_eq_alternate _ _ (by unfold PpmFrame.Fits; decide) (by decide)

/-- Three equal frames: after the first sync two follow, and one of them is published. -/
theorem second_frame_missed :
    published UInt64.ofNat 0 [oneChannel, oneChannel, oneChannel] = [oneChannel.expected] ∧
      published UInt64.ofNat 0 [oneChannel, oneChannel, oneChannel] ≠
        [oneChannel, oneChannel].map PpmFrame.expected := by
  decide +kernel

end Tm4cPilot.RcIn
