import Tm4cPilot.Gcs.Model

/-!
# Uploads

An upload is watched from outside: how many commands were announced, and the last item accepted at
each position. The slots below the item asked for hold the accepted items, unless another channel
stores there.
-/

namespace Tm4cPilot.Gcs

open Function Mission Plan
open MissionItem (MissionResult)
open StorageManager (Layout)

/-- The channel takes the item. -/
structure Accepts (layout : Layout) (ch : Channel) (m : Plan) (item : Item) : Prop where
  converted : item.result = .accepted
  mission : item.current ≠ 2 ∧ item.current ≠ 3
  receiving : ch.waypointReceiving = true
  awaited : item.seq = ch.waypointRequestI
  jump : jumpRejected ch m item.cmd.toSlot = false
  within : item.seq ≤ m.numCommands
  room : item.seq < numCommandsMax layout

variable {layout : Layout} {ch : Channel} {m m' : Plan} {item : Item} {guided : Bool}

variable {seq : ℕ}

theorem storeItem_eq_ok {cmd : Command} :
    storeItem layout m seq cmd = .ok m' ↔
      seq ≤ m.numCommands ∧ seq < numCommandsMax layout ∧ m' = m.wrote layout seq cmd.toSlot := by
  unfold storeItem
  obtain below | rfl | above := lt_trichotomy seq m.numCommands
  · rw [if_pos below]
    by_cases room : seq < numCommandsMax layout
    · simp [replaceCmd_eq_wrote below room, below.le, room, eq_comm]
    · simp [replaceCmd_full (not_lt.1 room), room]
  · by_cases room : m.cmdTotal < numCommandsMax layout
    · simp [addCmd_eq_wrote room, numCommands, room, eq_comm]
    · simp [addCmd_full (not_lt.1 room), numCommands, room]
  · rw [if_neg above.not_gt, if_neg above.ne']
    simp [not_le.2 above]

theorem checkItem_eq_ok :
    checkItem layout ch m item guided = .ok m' ↔
      Accepts layout ch m item ∧ m' = m.wrote layout item.seq item.cmd.toSlot := by
  unfold checkItem
  constructor
  · intro h
    split_ifs at h with converted guidedItem altItem receiving awaited jump
    obtain ⟨within, room, rfl⟩ := storeItem_eq_ok.1 h
    exact ⟨⟨not_not.1 converted, ⟨guidedItem, altItem⟩, by simpa using receiving,
      not_not.1 awaited, by simpa using jump, within, room⟩, rfl⟩
  · rintro ⟨h, rfl⟩
    simp only [h.converted, h.mission.1, h.mission.2, h.receiving, h.awaited, h.jump, ne_eq,
      not_true_eq_false, if_false, Bool.not_true, Bool.false_eq_true]
    rw [← h.awaited]
    exact storeItem_eq_ok.2 ⟨h.within, h.room, rfl⟩

/-- The number announced, and the items accepted last. -/
structure Upload where
  count : ℕ
  items : ℕ → Option Slot

/-- An item was accepted. -/
def Upload.accept (u : Upload) (seq : ℕ) (cmd : Slot) : Upload :=
  { u with items := update u.items seq (some cmd) }

variable {ι : Type} [DecidableEq ι]

/-- The vehicle, and the last upload of each channel. -/
structure Watched (ι : Type) where
  vehicle : Vehicle ι
  uploads : ι → Option Upload

namespace Watched

/-- How an event changes the uploads. -/
def watch (layout : Layout) (s : Watched ι) : Event ι → ι → Option Upload
  | .message c _ (.missionCount count) =>
    if count > numCommandsMax layout then s.uploads
    else update s.uploads c (some ⟨count, fun _ => none⟩)
  | .message c _ (.missionItem item guided _) =>
    match checkItem layout (s.vehicle.channels c) s.vehicle.mission item guided with
    | .ok _ =>
      update s.uploads c ((s.uploads c).map (·.accept item.seq item.cmd.toSlot))
    | .error _ => s.uploads
  | .message c _ (.missionWritePartialList startIndex endIndex) =>
    if partialRejected s.vehicle.mission startIndex endIndex then s.uploads
    else update s.uploads c none
  | _ => s.uploads

def step (layout : Layout) (s : Watched ι) (e : Event ι) : Watched ι :=
  ⟨s.vehicle.step layout e, s.watch layout e⟩

def start (v : Vehicle ι) : Watched ι := ⟨v, fun _ => none⟩

end Watched

/-! ## What a step does to an upload -/

/-- The upload has just begun. -/
structure Started (layout : Layout) (ch : Channel) (m : Plan) (u : Upload) : Prop where
  first : ch.waypointRequestI = 0
  last : ch.waypointRequestLast = u.count
  total : m.cmdTotal ≤ u.count
  room : u.count ≤ numCommandsMax layout

/-- The upload stays; the mission may be shorter or have another's item. -/
structure Kept (layout : Layout) (s : Watched ι) (e : Event ι) (d : ι) (u : Upload) : Prop where
  channel : ((s.step layout e).vehicle.channels d) = s.vehicle.channels d
  upload : s.uploads d = some u
  mission :
    s.vehicle.mission.Shortened (s.step layout e).vehicle.mission ∨
    ∃ c sender item guided space, c ≠ d ∧ e = .message c sender (.missionItem item guided space) ∧
      Accepts layout (s.vehicle.channels c) s.vehicle.mission item ∧
      (s.step layout e).vehicle.mission = s.vehicle.mission.wrote layout item.seq item.cmd.toSlot

/-- The upload on channel `d` has gone on to the next item. -/
structure Took (layout : Layout) (s : Watched ι) (e : Event ι) (d : ι) (u : Upload) (item : Item) :
    Prop where
  event : ∃ sender guided space, e = .message d sender (.missionItem item guided space)
  accepts : Accepts layout (s.vehicle.channels d) s.vehicle.mission item
  upload : (s.uploads d).map (·.accept item.seq item.cmd.toSlot) = some u
  mission :
    (s.step layout e).vehicle.mission = s.vehicle.mission.wrote layout item.seq item.cmd.toSlot
  next : ((s.step layout e).vehicle.channels d).waypointRequestI =
    (s.vehicle.channels d).waypointRequestI + 1
  last : ((s.step layout e).vehicle.channels d).waypointRequestLast =
    (s.vehicle.channels d).waypointRequestLast
  goesOn : ((s.step layout e).vehicle.channels d).waypointReceiving = true →
    (s.vehicle.channels d).waypointRequestI + 1 < (s.vehicle.channels d).waypointRequestLast
  finishes : s.vehicle.finishes layout d e = true →
    (s.vehicle.channels d).waypointRequestLast ≤ (s.vehicle.channels d).waypointRequestI + 1

theorem handleMissionItem_goesOn (h : Accepts layout ch m item) (sender : Address)
    (guided space : Bool) (more : ch.waypointRequestI + 1 < ch.waypointRequestLast) :
    handleMissionItem layout sender ch m item guided space =
      { channel := { ch with waypointRequestI := ch.waypointRequestI + 1 }
        mission := m.wrote layout item.seq item.cmd.toSlot
        sent :=
          if space then queuedWaypointSend { ch with waypointRequestI := ch.waypointRequestI + 1 }
          else [] } := by
  rw [handleMissionItem, checkItem_eq_ok.2 ⟨h, rfl⟩]
  exact if_neg (not_le.2 more)

theorem handleMissionItem_finishes (h : Accepts layout ch m item) (sender : Address)
    (guided space : Bool) (done : ch.waypointRequestLast ≤ ch.waypointRequestI + 1) :
    handleMissionItem layout sender ch m item guided space =
      { channel := { ch with
          waypointRequestI := ch.waypointRequestI + 1
          waypointReceiving := false }
        mission := m.wrote layout item.seq item.cmd.toSlot
        sent := [.missionAck sender .accepted, .text .info "Flight plan received"]
        complete := true } := by
  rw [handleMissionItem, checkItem_eq_ok.2 ⟨h, rfl⟩]
  exact if_pos done

theorem handleMissionItem_of_accepts (h : Accepts layout ch m item) (sender : Address)
    (guided space : Bool) :
    let handled := handleMissionItem layout sender ch m item guided space
    handled.mission = m.wrote layout item.seq item.cmd.toSlot ∧
      handled.channel.waypointRequestI = ch.waypointRequestI + 1 ∧
      handled.channel.waypointRequestLast = ch.waypointRequestLast ∧
      (handled.channel.waypointReceiving = true →
        ch.waypointRequestI + 1 < ch.waypointRequestLast) ∧
      (handled.complete = true → ch.waypointRequestLast ≤ ch.waypointRequestI + 1) := by
  obtain more | done := lt_or_ge (ch.waypointRequestI + 1) ch.waypointRequestLast
  · rw [handleMissionItem_goesOn h sender guided space more]
    exact ⟨rfl, rfl, rfl, fun _ => more, nofun⟩
  · rw [handleMissionItem_finishes h sender guided space done]
    exact ⟨rfl, rfl, rfl, nofun, fun _ => done⟩

theorem handleMissionItem_of_not_accepts (h : ¬Accepts layout ch m item) (sender : Address)
    (guided space : Bool) :
    let handled := handleMissionItem layout sender ch m item guided space
    handled.channel = ch ∧ handled.mission = m ∧ handled.complete = false := by
  rw [handleMissionItem]
  cases checked : checkItem layout ch m item guided with
  | error result => exact ⟨rfl, rfl, rfl⟩
  | ok m' => exact absurd (checkItem_eq_ok.1 checked).1 h

theorem handleMessage_mission (layout : Layout) (sender : Address) (ch : Channel) (m : Plan)
    (message : Message) :
    let mission := (handleMessage layout sender ch m message).mission
    m.Shortened mission ∨
      ∃ item guided space, message = .missionItem item guided space ∧
        Accepts layout ch m item ∧ mission = m.wrote layout item.seq item.cmd.toSlot := by
  cases message with
  | missionCount count =>
    left
    simp only [handleMessage, handleMissionCount]
    split_ifs with full
    · exact .refl m
    · exact m.shortened_truncate count
  | missionItem item guided space =>
    by_cases accepts : Accepts layout ch m item
    · right
      exact ⟨item, guided, space, rfl, accepts,
        (handleMissionItem_of_accepts accepts sender guided space).1⟩
    · obtain ⟨-, same, -⟩ := handleMissionItem_of_not_accepts accepts sender guided space
      exact .inl ⟨congrArg storage same, (congrArg cmdTotal same).le⟩
  | missionClearAll => exact .inl m.shortened_clear
  | missionRequestList => exact .inl (.refl m)
  | missionWritePartialList startIndex endIndex =>
    left
    simp only [handleMessage, handleMissionWritePartialList]
    split_ifs <;> exact .refl m

section Step

variable {s : Watched ι} {e : Event ι} {d : ι} {u : Upload}

variable {c : ι}

theorem uploads_of_accepts {item : Item}
    (accepts : Accepts layout (s.vehicle.channels c) s.vehicle.mission item) (sender : Address)
    (guided space : Bool) :
    (s.step layout (.message c sender (.missionItem item guided space))).uploads =
      update s.uploads c ((s.uploads c).map (·.accept item.seq item.cmd.toSlot)) := by
  simp only [Watched.step, Watched.watch, checkItem_eq_ok.2 ⟨accepts, rfl⟩]

theorem uploads_of_not_accepts {item : Item}
    (accepts : ¬Accepts layout (s.vehicle.channels c) s.vehicle.mission item) (sender : Address)
    (guided space : Bool) :
    (s.step layout (.message c sender (.missionItem item guided space))).uploads = s.uploads := by
  simp only [Watched.step, Watched.watch]
  cases checked : checkItem layout (s.vehicle.channels c) s.vehicle.mission item guided with
  | error result => rfl
  | ok m' => exact absurd (checkItem_eq_ok.1 checked).1 accepts

theorem uploads_of_ne (different : d ≠ c) (sender : Address) (message : Message) :
    (s.step layout (.message c sender message)).uploads d = s.uploads d := by
  cases message with
  | missionCount count =>
    simp only [Watched.step, Watched.watch]
    split_ifs
    · rfl
    · exact update_of_ne different _ _
  | missionItem item guided space =>
    by_cases accepts : Accepts layout (s.vehicle.channels c) s.vehicle.mission item
    · rw [uploads_of_accepts accepts]
      exact update_of_ne different _ _
    · rw [uploads_of_not_accepts accepts]
  | missionWritePartialList startIndex endIndex =>
    simp only [Watched.step, Watched.watch]
    split_ifs
    · rfl
    · exact update_of_ne different _ _
  | missionClearAll => rfl
  | missionRequestList => rfl

theorem channels_message (s : Watched ι) (c : ι) (sender : Address) (message : Message) :
    (s.step layout (.message c sender message)).vehicle.channels c =
      (handleMessage layout sender (s.vehicle.channels c) s.vehicle.mission message).channel :=
  update_self _ _ _

variable {sender : Address}

theorem kept_of_ignored {message : Message} (upload : s.uploads d = some u)
    (ignored :
      let handled := handleMessage layout sender (s.vehicle.channels d) s.vehicle.mission message
      handled.channel = s.vehicle.channels d ∧ handled.mission = s.vehicle.mission) :
    Kept layout s (.message d sender message) d u := by
  obtain ⟨channel, mission⟩ := ignored
  refine ⟨(channels_message s d sender message).trans channel, upload, .inl ?_⟩
  exact ⟨congrArg storage mission, (congrArg cmdTotal mission).le⟩

theorem took_of_accepts {item : Item} {guided space : Bool}
    (accepts : Accepts layout (s.vehicle.channels d) s.vehicle.mission item)
    (upload : (s.step layout (.message d sender (.missionItem item guided space))).uploads d =
    some u) : Took layout s (.message d sender (.missionItem item guided space)) d u item := by
  rw [uploads_of_accepts accepts, update_self] at upload
  obtain ⟨mission, next, last, goesOn, complete⟩ :=
    handleMissionItem_of_accepts accepts sender guided space
  refine ⟨⟨sender, guided, space, rfl⟩, accepts, upload, mission, ?_, ?_, ?_, ?_⟩
  · rw [channels_message]
    exact next
  · rw [channels_message]
    exact last
  · rw [channels_message]
    exact goesOn
  · intro finishes
    apply complete
    simpa [Vehicle.finishes, handleMessage] using finishes

theorem message_cases {message : Message}
    (upload : (s.step layout (.message d sender message)).uploads d = some u)
    (receiving :
      ((s.step layout (.message d sender message)).vehicle.channels d).waypointReceiving = true) :
    let s' := s.step layout (.message d sender message)
    Started layout (s'.vehicle.channels d) s'.vehicle.mission u ∨
      Kept layout s (.message d sender message) d u ∨
      ∃ item, Took layout s (.message d sender message) d u item := by
  cases message with
  | missionCount count =>
    by_cases full : count > numCommandsMax layout
    · simp only [Watched.step, Watched.watch, if_pos full] at upload
      refine .inr (.inl (kept_of_ignored upload ?_))
      simp only [handleMessage, handleMissionCount, if_pos full, and_self]
    · simp only [Watched.step, Watched.watch, if_neg full, update_self, Option.some.injEq] at upload
      subst upload
      refine .inl ⟨?_, ?_, ?_, not_lt.1 full⟩
      · simp [channels_message, handleMessage, handleMissionCount, full]
      · simp [channels_message, handleMessage, handleMissionCount, full]
      · simpa [Watched.step, Vehicle.step, handleMessage, handleMissionCount, full] using
          s.vehicle.mission.cmdTotal_truncate_le count
  | missionItem item guided space =>
    by_cases accepts : Accepts layout (s.vehicle.channels d) s.vehicle.mission item
    · exact .inr (.inr ⟨item, took_of_accepts accepts upload⟩)
    · rw [uploads_of_not_accepts accepts] at upload
      obtain ⟨channel, mission, -⟩ := handleMissionItem_of_not_accepts accepts sender guided space
      exact .inr (.inl (kept_of_ignored upload ⟨channel, mission⟩))
  | missionClearAll =>
    exact .inr (.inl ⟨channels_message s d sender _, upload, .inl s.vehicle.mission.shortened_clear⟩)
  | missionRequestList =>
    simp [channels_message, handleMessage, handleMissionRequestList] at receiving
  | missionWritePartialList startIndex endIndex =>
    by_cases rejected : partialRejected s.vehicle.mission startIndex endIndex = true
    · simp only [Watched.step, Watched.watch, if_pos rejected] at upload
      refine .inr (.inl (kept_of_ignored upload ?_))
      simp only [handleMessage, handleMissionWritePartialList, if_pos rejected, and_self]
    · simp [Watched.step, Watched.watch, if_neg rejected] at upload

theorem step_cases (upload : (s.step layout e).uploads d = some u)
    (receiving : ((s.step layout e).vehicle.channels d).waypointReceiving = true) :
    Started layout ((s.step layout e).vehicle.channels d) (s.step layout e).vehicle.mission u ∨
      Kept layout s e d u ∨ ∃ item, Took layout s e d u item := by
  cases e with
  | nextWaypoint c => exact .inr (.inl ⟨rfl, upload, .inl ⟨rfl, le_rfl⟩⟩)
  | fly exec => exact .inr (.inl ⟨rfl, upload, .inl ⟨rfl, le_rfl⟩⟩)
  | receiveTimeout c =>
    by_cases same : d = c
    · subst same
      simp [Watched.step, Vehicle.step] at receiving
    · exact .inr (.inl ⟨update_of_ne same _ _, upload, .inl ⟨rfl, le_rfl⟩⟩)
  | message c sender message =>
    by_cases same : d = c
    · subst same
      exact message_cases upload receiving
    · refine .inr (.inl ⟨update_of_ne same _ _, ?_, ?_⟩)
      · rw [uploads_of_ne same] at upload
        exact upload
      · obtain shorter | ⟨item, guided, space, rfl, accepts, mission⟩ :=
          handleMessage_mission layout sender (s.vehicle.channels c) s.vehicle.mission message
        · exact .inl shorter
        · exact .inr ⟨c, sender, item, guided, space, Ne.symm same, rfl, accepts, mission⟩

theorem took_of_finishes (upload : (s.step layout e).uploads d = some u)
    (finishes : s.vehicle.finishes layout d e = true) : ∃ item, Took layout s e d u item := by
  cases e with
  | message c sender message =>
    simp only [Vehicle.finishes, Bool.and_eq_true, decide_eq_true_eq] at finishes
    obtain ⟨rfl, complete⟩ := finishes
    cases message with
    | missionItem item guided space =>
      by_cases accepts : Accepts layout (s.vehicle.channels c) s.vehicle.mission item
      · exact ⟨item, took_of_accepts accepts upload⟩
      · obtain ⟨-, -, incomplete⟩ := handleMissionItem_of_not_accepts accepts sender guided space
        cases incomplete.symm.trans complete
    | missionCount count =>
      simp only [handleMessage, handleMissionCount] at complete
      split_ifs at complete
    | missionWritePartialList startIndex endIndex =>
      simp only [handleMessage, handleMissionWritePartialList] at complete
      split_ifs at complete
    | missionClearAll => cases complete
    | missionRequestList => cases complete
  | nextWaypoint c => cases finishes
  | receiveTimeout c => cases finishes
  | fly exec => cases finishes

end Step

/-! ## The invariant -/

/-- Command `i` is the last item accepted there. -/
structure Placed (layout : Layout) (m : Plan) (u : Upload) (i : ℕ) (cmd : Slot) : Prop where
  item : u.items i = some cmd
  stored : Stored layout m i cmd
  storable : cmd.Storable
  jump : cmd.id = doJump → 1 ≤ cmd.content.jumpTarget ∧ cmd.content.jumpTarget < u.count

/-- What holds during an upload. -/
structure Uploading (layout : Layout) (ch : Channel) (m : Plan) (u : Upload) : Prop where
  last : ch.waypointRequestLast = u.count
  next : ch.waypointRequestI < u.count
  total : m.cmdTotal ≤ u.count
  room : u.count ≤ numCommandsMax layout
  placed : ∀ i < ch.waypointRequestI, ∃ cmd, Placed layout m u i cmd

/-- The mission has the items. -/
structure Consists (layout : Layout) (m : Plan) (u : Upload) : Prop where
  total : m.cmdTotal = u.count
  placed : ∀ i < u.count, ∃ cmd, Placed layout m u i cmd

/-- Every upload is going on or finished. -/
def Sound (layout : Layout) (s : Watched ι) : Prop :=
  ∀ d u, s.uploads d = some u → 1 ≤ u.count → (s.vehicle.channels d).waypointReceiving = true →
    Uploading layout (s.vehicle.channels d) s.vehicle.mission u

/-- The item is in no part of another upload that has come. -/
def SparesOthers (layout : Layout) (s : Watched ι) : Event ι → Prop
  | .message c _ (.missionItem item _ _) =>
    Accepts layout (s.vehicle.channels c) s.vehicle.mission item →
      ∀ d u, d ≠ c → s.uploads d = some u → 1 ≤ u.count →
        (s.vehicle.channels d).waypointReceiving = true →
          (s.vehicle.channels d).waypointRequestI ≤ item.seq ∧ item.seq < u.count
  | _ => True

section Invariant

variable {u : Upload} {i : ℕ} {cmd : Slot}

theorem Placed.shortened (h : Placed layout m u i cmd) (shorter : m.Shortened m') :
    Placed layout m' u i cmd :=
  ⟨h.item, h.stored.of_storage_eq shorter.storage, h.storable, h.jump⟩

theorem Placed.wrote {seq : ℕ} (h : Placed layout m u i cmd) (room : seq < numCommandsMax layout)
    (different : i ≠ seq) (other : Slot) : Placed layout (m.wrote layout seq other) u i cmd :=
  ⟨h.item, h.stored.wrote room different other, h.storable, h.jump⟩

theorem Placed.accept {seq : ℕ} (h : Placed layout m u i cmd) (different : i ≠ seq) (other : Slot) :
    Placed layout m (u.accept seq other) i cmd :=
  ⟨(update_of_ne different _ _).trans h.item, h.stored, h.storable, h.jump⟩

section

variable (h : Uploading layout ch m u)
include h

theorem Uploading.jump (accepts : Accepts layout ch m item) (isJump : item.cmd.id = doJump) :
    1 ≤ item.cmd.content.jumpTarget ∧ item.cmd.content.jumpTarget < u.count := by
  have checked := accepts.jump
  have total := h.total
  have last := h.last
  simp only [jumpRejected, isJump, true_and, decide_eq_false_iff_not, not_or, not_and, not_le,
    ge_iff_le, numCommands] at checked
  omega

theorem Uploading.placed_next (accepts : Accepts layout ch m item) :
    ∀ i < ch.waypointRequestI + 1, ∃ cmd, Placed layout (m.wrote layout item.seq item.cmd.toSlot)
      (u.accept item.seq item.cmd.toSlot) i cmd := by
  intro i below
  obtain before | here := Nat.lt_succ_iff_lt_or_eq.1 below
  · obtain ⟨cmd, placed⟩ := h.placed i before
    have different : i ≠ item.seq := by
      rw [accepts.awaited]
      exact before.ne
    exact ⟨cmd, (placed.wrote accepts.room different _).accept different _⟩
  · rw [here, ← accepts.awaited]
    exact ⟨item.cmd.toSlot, update_self _ _ _, stored_wrote accepts.room m item.cmd.toSlot,
      item.storable accepts.converted, h.jump accepts⟩

theorem Uploading.total_wrote {seq : ℕ} (below : seq < u.count) (cmd : Slot) :
    (m.wrote layout seq cmd).cmdTotal ≤ u.count :=
  max_le h.total below

theorem Uploading.wrote {seq : ℕ} (spared : ch.waypointRequestI ≤ seq ∧ seq < u.count)
    (room : seq < numCommandsMax layout) (cmd : Slot) :
    Uploading layout ch (m.wrote layout seq cmd) u := by
  refine ⟨h.last, h.next, h.total_wrote spared.2 cmd, h.room, fun i below => ?_⟩
  obtain ⟨cmd', placed⟩ := h.placed i below
  exact ⟨cmd', placed.wrote room (by omega) cmd⟩

theorem Uploading.shortened (shorter : m.Shortened m') : Uploading layout ch m' u := by
  refine ⟨h.last, h.next, shorter.total.trans h.total, h.room, fun i below => ?_⟩
  obtain ⟨cmd, placed⟩ := h.placed i below
  exact ⟨cmd, placed.shortened shorter⟩

end

end Invariant

omit [DecidableEq ι] in
theorem sound_start (layout : Layout) (v : Vehicle ι) : Sound layout (.start v) := by
  intro d u upload
  cases upload

variable {s : Watched ι} {e : Event ι}

theorem Sound.step (h : Sound layout s) (spares : SparesOthers layout s e) :
    Sound layout (s.step layout e) := by
  intro d u upload count receiving
  obtain started | kept | ⟨item, took⟩ := step_cases upload receiving
  · refine ⟨started.last, ?_, started.total, started.room, fun i below => ?_⟩
    · rw [started.first]
      exact count
    · rw [started.first] at below
      exact absurd below (Nat.not_lt_zero i)
  · rw [kept.channel] at receiving ⊢
    have uploading := h d u kept.upload count receiving
    obtain shorter | ⟨c, sender, item, guided, space, different, rfl, accepts, mission⟩ :=
      kept.mission
    · exact uploading.shortened shorter
    · rw [mission]
      exact uploading.wrote (spares accepts d u different.symm kept.upload count receiving)
        accepts.room item.cmd.toSlot
  · obtain ⟨u₀, upload₀, rfl⟩ := Option.map_eq_some_iff.1 took.upload
    have uploading := h d u₀ upload₀ count took.accepts.receiving
    have next := took.goesOn receiving
    have last := uploading.last
    refine ⟨took.last.trans last, ?_, ?_, uploading.room, ?_⟩
    · rw [took.next]
      exact next.trans_eq last
    · rw [took.mission]
      apply uploading.total_wrote
      rw [took.accepts.awaited]
      exact uploading.next
    · rw [took.next, took.mission]
      exact uploading.placed_next took.accepts

theorem Sound.consists (h : Sound layout s) {d : ι} {u : Upload}
    (upload : (s.step layout e).uploads d = some u) (count : 1 ≤ u.count)
    (finishes : s.vehicle.finishes layout d e = true) :
    Consists layout (s.step layout e).vehicle.mission u := by
  obtain ⟨item, took⟩ := took_of_finishes upload finishes
  obtain ⟨u₀, upload₀, rfl⟩ := Option.map_eq_some_iff.1 took.upload
  have uploading := h d u₀ upload₀ count took.accepts.receiving
  have done : u₀.count = item.seq + 1 := by
    have := took.finishes finishes
    rw [uploading.last] at this
    rw [took.accepts.awaited]
    exact this.antisymm uploading.next
  rw [took.mission]
  refine ⟨?_, fun i below => uploading.placed_next took.accepts i ?_⟩
  · exact (max_eq_right (done ▸ uploading.total)).trans done.symm
  · rw [← took.accepts.awaited, ← done]
    exact below

variable {dest : Address}

theorem mem_queuedWaypointSend (h : .missionRequest dest seq ∈ queuedWaypointSend ch) :
    ch.waypointReceiving = true ∧ ch.waypointRequestI = seq := by
  unfold queuedWaypointSend at h
  split_ifs at h with asks
  · simp only [List.mem_singleton, Output.missionRequest.injEq] at h
    exact ⟨asks.2.1, h.2.symm⟩
  · cases h

theorem handleMessage_requests {sender : Address} {message : Message}
    (h : .missionRequest dest seq ∈ (handleMessage layout sender ch m message).sent) :
    let ch' := (handleMessage layout sender ch m message).channel
    ch'.waypointReceiving = true ∧ ch'.waypointRequestI = seq := by
  cases message with
  | missionItem item guided space =>
    simp only [handleMessage, handleMissionItem] at h ⊢
    cases checked : checkItem layout ch m item guided with
    | error result => simp [checked] at h
    | ok m' =>
      simp only [checked] at h ⊢
      split_ifs at h ⊢
      · simp at h
      · exact mem_queuedWaypointSend h
      · cases h
  | missionCount count =>
    simp only [handleMessage, handleMissionCount] at h
    split_ifs at h <;> simp at h
  | missionWritePartialList startIndex endIndex =>
    simp only [handleMessage, handleMissionWritePartialList] at h
    split_ifs at h <;> simp at h
  | missionClearAll => simp [handleMessage, handleMissionClearAll] at h
  | missionRequestList => simp [handleMessage, handleMissionRequestList] at h

theorem requests_next {c : ι} (h : .missionRequest dest seq ∈ s.vehicle.sent layout c e) :
    ((s.step layout e).vehicle.channels c).waypointReceiving = true ∧
      ((s.step layout e).vehicle.channels c).waypointRequestI = seq := by
  cases e with
  | message d sender message =>
    simp only [Vehicle.sent] at h
    split_ifs at h with same
    · subst same
      rw [channels_message]
      exact handleMessage_requests h
    · cases h
  | nextWaypoint d =>
    simp only [Vehicle.sent] at h
    split_ifs at h
    · exact mem_queuedWaypointSend h
    · cases h
  | receiveTimeout d => cases h
  | fly exec => cases h

/-! ## One channel -/

/-- The messages arrive on channel `c` only. -/
def Event.Only (c : ι) : Event ι → Prop
  | .message d _ _ => d = c
  | _ => True

/-- The accepted items, as many as announced, and no jump out. -/
structure Uploaded (layout : Layout) (m : Plan) (u : Upload) : Prop where
  total : m.numCommands = u.count
  commands : ∀ i, 1 ≤ i → i < u.count → ∃ cmd, u.items i = some cmd ∧
    (∀ stack home, Mission.readCmdFromStorage layout m.storage stack m.numCommands home i default =
      (true, ⟨cmd, i⟩)) ∧
    (cmd.id = doJump → 1 ≤ cmd.content.jumpTarget ∧ cmd.content.jumpTarget ≤ u.count - 1)

theorem Consists.uploaded {u : Upload} (h : Consists layout m u) : Uploaded layout m u := by
  refine ⟨h.total, fun i first below => ?_⟩
  obtain ⟨cmd, placed⟩ := h.placed i below
  refine ⟨cmd, placed.item, fun stack home => ?_, fun isJump => ?_⟩
  · apply readCmdFromStorage_of_stored placed.stored placed.storable first
    rw [h.total]
    exact below
  · obtain ⟨lower, upper⟩ := placed.jump isJump
    exact ⟨lower, Nat.le_sub_one_of_lt upper⟩

/-- No upload but that on channel `c` is watched. -/
def Watched.Alone (s : Watched ι) (c : ι) : Prop := ∀ d, d ≠ c → s.uploads d = none

omit [DecidableEq ι] in
theorem Watched.Alone.spares {s : Watched ι} {c : ι} (alone : s.Alone c) {e : Event ι}
    (only : e.Only c) : SparesOthers layout s e := by
  cases e with
  | message d sender message =>
    obtain rfl : d = c := only
    cases message with
    | missionItem item guided space =>
      intro accepts d' u different upload
      rw [alone d' different] at upload
      cases upload
    | _ => trivial
  | _ => trivial

theorem Watched.Alone.step {c : ι} (alone : s.Alone c) (only : e.Only c) :
    (s.step layout e).Alone c := by
  intro d different
  cases e with
  | message d' sender message =>
    obtain rfl : d' = c := only
    rw [uploads_of_ne different]
    exact alone d different
  | _ => exact alone d different

/-- On one channel a finished upload has left the announced mission. -/
theorem upload_on_one_channel (layout : Layout) (v : Vehicle ι) (c : ι) {events : List (Event ι)}
    (only : ∀ e ∈ events, e.Only c) {e : Event ι} (now : e.Only c) {u : Upload}
    (upload : ((Run.run (Watched.step layout) (.start v) events).step layout e).uploads c = some u)
    (count : 1 ≤ u.count) :
    let s := Run.run (Watched.step layout) (.start v) events
    (s.vehicle.finishes layout c e = true →
      Uploaded layout (s.step layout e).vehicle.mission u) ∧
    ∀ dest seq, .missionRequest dest seq ∈ s.vehicle.sent layout c e → seq < u.count := by
  intro s
  have invariant : Sound layout s ∧ s.Alone c := by
    apply (Run.along_of_forall only (Watched.start v)).invariant
      (I := fun s => Sound layout s ∧ s.Alone c)
    · intro s e only h
      exact ⟨h.1.step (h.2.spares only), h.2.step only⟩
    · exact ⟨sound_start layout v, fun _ _ => rfl⟩
  refine ⟨fun finishes => (invariant.1.consists upload count finishes).uploaded, ?_⟩
  intro dest seq requested
  obtain ⟨receiving, next⟩ := requests_next requested
  have uploading := invariant.1.step (invariant.2.spares now) c u upload count receiving
  rw [← next]
  exact uploading.next

section Example

variable {ι : Type}

/-- No upload and no mission. -/
def idle : Vehicle ι := ⟨fun _ => ⟨true, false, 0, 0, ⟨0, 0⟩⟩, ⟨0, fun _ => 0, default⟩⟩

/-- A waypoint with a delay. -/
def waypoint (delay : UInt16) : Slot := ⟨16, delay, .zero⟩

theorem waypoint_storable (delay : UInt16) : (waypoint delay).Storable :=
  ⟨show (1 : UInt16) ≤ 16 by decide, fun wide => absurd (show (16 : UInt16) < 256 by decide) wide⟩

/-- A MISSION_COUNT. -/
def announce (c : ι) (count : ℕ) : Event ι := .message c ⟨255, 190⟩ (.missionCount count)

def send (c : ι) (seq : ℕ) (delay : UInt16) : Event ι :=
  .message c ⟨255, 190⟩ (.missionItem
    ⟨seq, 0, .accepted, ⟨waypoint delay, seq⟩, fun _ => waypoint_storable delay⟩ false true)

end Example

/-- Two waypoints, the second one sent again with a change before it is asked for. -/
theorem twoWaypoints_uploaded :
    let layout := StorageManager.layoutCopter .four
    let s := Run.run (Watched.step layout) (.start idle)
      [announce () 2, send () 1 7, send () 0 0]
    s.vehicle.finishes layout () (send () 1 8) = true ∧
      ∃ u, (s.step layout (send () 1 8)).uploads () = some u ∧
        Uploaded layout (s.step layout (send () 1 8)).vehicle.mission u := by
  have only : ∀ e ∈ [announce () 2, send () 1 7, send () 0 0], Event.Only () e := by
    simp [announce, send, Event.Only]
  have now : Event.Only () (send () 1 8) := rfl
  refine ⟨by decide +kernel, _, rfl, ?_⟩
  exact (upload_on_one_channel (StorageManager.layoutCopter .four) idle () only now rfl
    (by decide +kernel)).1 (by decide +kernel)

end Tm4cPilot.Gcs
