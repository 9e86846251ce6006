import Tm4cPilot.Gcs.Upload

/-!
# Partial lists

A ground station replaces the commands from a first to a last index. The channel stops receiving as
soon as the next index has reached the last one, so the last command is replaced only when it is
also the first.
-/

namespace Tm4cPilot.Gcs

open Mission (Plan Slot doJump numCommandsMax bytesOf)
open StorageManager (Layout)

/-- The channel, the mission, the requests and the last answer. -/
structure Exchange where
  channel : Channel
  mission : Plan
  requested : List ℕ
  sent : List Output

section Exchange

variable (layout : Layout) (station : Address) (answer : ℕ → Item) (guided space : ℕ → Bool)

/-- The channel asks, and the ground station answers. -/
def exchangeBody (x : Exchange) : Exchange ⊕ Exchange :=
  match queuedWaypointSend x.channel with
  | .missionRequest _ seq :: _ =>
    let h := handleMissionItem layout station x.channel x.mission (answer seq) (guided seq) (space seq)
    .inr ⟨h.channel, h.mission, x.requested ++ [seq], h.sent⟩
  | _ => .inl x

/-- The partial list has arrived. -/
def exchangeStart (ch : Channel) (m : Plan) (first last : ℕ) : Exchange :=
  let h := handleMissionWritePartialList ch m first last
  ⟨h.channel, h.mission, [], h.sent⟩

end Exchange

/-- An item for a request, in a mission of `total` commands. -/
structure Valid (total seq : ℕ) (item : Item) : Prop where
  seq : item.seq = seq
  converted : item.result = .accepted
  mission : item.current ≠ 2 ∧ item.current ≠ 3
  jump : item.cmd.id = doJump →
    1 ≤ item.cmd.content.jumpTarget ∧ item.cmd.content.jumpTarget < total

/-- The bytes of a slot. -/
def slotBytes (layout : Layout) (m : Plan) (i : ℕ) : List UInt8 :=
  Memory.readBlock (bytesOf layout m.storage) (4 + i * 15) 15

/-- The items are asked for, and exactly these replaced. -/
structure Updated (layout : Layout) (station : Address) (answer : ℕ → Item) (m : Plan)
    (first last : ℕ) (x : Exchange) : Prop where
  requested : x.requested = List.range' first (last + 1 - first)
  acknowledged : .missionAck station .accepted ∈ x.sent
  total : x.mission.numCommands = m.numCommands
  replaced : ∀ i, first ≤ i → i ≤ last → slotBytes layout x.mission i = (answer i).cmd.bytes
  kept : ∀ i < m.numCommands, i < first ∨ last < i →
    slotBytes layout x.mission i = slotBytes layout m i

/-! ## The rounds -/

/-- The mission after the first `n` answers. -/
def replacedBy (layout : Layout) (answer : ℕ → Item) (m : Plan) (first : ℕ) : ℕ → Plan
  | 0 => m
  | n + 1 => (replacedBy layout answer m first n).wrote layout (first + n)
      (answer (first + n)).cmd.toSlot

variable {layout : Layout} {answer : ℕ → Item} {m : Plan} {first last n : ℕ}

theorem slotBytes_wrote_self {seq : ℕ} (room : seq < numCommandsMax layout) (m : Plan) (cmd : Slot) :
    slotBytes layout (m.wrote layout seq cmd) seq = cmd.bytes := by
  have stored := (Mission.stored_wrote room m cmd).2
  rw [Memory.Holds, cmd.length_bytes] at stored
  exact stored

theorem slotBytes_wrote_other {seq i : ℕ} (room : seq < numCommandsMax layout)
    (inside : i < numCommandsMax layout) (different : i ≠ seq) (m : Plan) (cmd : Slot) :
    slotBytes layout (m.wrote layout seq cmd) i = slotBytes layout m i :=
  Memory.readBlock_congr fun _ low high => Mission.bytesOf_wrote room inside different m cmd low high

theorem slotBytes_replacedBy (room : first + n ≤ numCommandsMax layout) {i : ℕ}
    (inside : i < numCommandsMax layout) :
    slotBytes layout (replacedBy layout answer m first n) i =
      if first ≤ i ∧ i < first + n then (answer i).cmd.bytes else slotBytes layout m i := by
  induction n with
  | zero => rw [if_neg (by omega), replacedBy]
  | succ n ih =>
    rw [replacedBy]
    by_cases here : i = first + n
    · subst here
      rw [slotBytes_wrote_self inside, if_pos (by omega)]
    · rw [slotBytes_wrote_other (by omega) inside here, ih (by omega)]
      split_ifs <;> first | rfl | omega

theorem cmdTotal_replacedBy (below : first + n ≤ m.cmdTotal) :
    (replacedBy layout answer m first n).cmdTotal = m.cmdTotal := by
  induction n with
  | zero => rfl
  | succ n ih =>
    rw [replacedBy, Plan.wrote, ih (by omega)]
    exact max_eq_left below

section Rounds

variable {station : Address} {guided space : ℕ → Bool} {ch : Channel}

/-- The exchange before round `n`. -/
def beforeRound (layout : Layout) (answer : ℕ → Item) (ch : Channel) (m : Plan) (first last n : ℕ)
    (sent : List Output) : Exchange :=
  ⟨{ ch with
      waypointReceiving := true
      waypointRequestI := first + n
      waypointRequestLast := last },
    replacedBy layout answer m first n, List.range' first n, sent⟩

/-- The exchange after `n` rounds, if it is finished. -/
def afterRounds (layout : Layout) (station : Address) (answer : ℕ → Item) (ch : Channel) (m : Plan)
    (first last n : ℕ) : Exchange :=
  ⟨{ ch with
      waypointReceiving := false
      waypointRequestI := first + n
      waypointRequestLast := last },
    replacedBy layout answer m first n, List.range' first n,
    [.missionAck station .accepted, .text .info "Flight plan received"]⟩

theorem accepts_answer (valid : Valid m.cmdTotal (first + n) (answer (first + n)))
    (below : first + n < m.cmdTotal) (room : m.cmdTotal ≤ numCommandsMax layout) (ch : Channel)
    (last : ℕ) (sent : List Output) :
    let x := beforeRound layout answer ch m first last n sent
    Accepts layout x.channel x.mission (answer (first + n)) := by
  intro x
  have total : x.mission.cmdTotal = m.cmdTotal := cmdTotal_replacedBy (by omega)
  refine ⟨valid.converted, valid.mission, rfl, valid.seq, ?_, ?_, ?_⟩
  · simp only [jumpRejected, decide_eq_false_iff_not, Plan.numCommands, total]
    rintro ⟨isJump, outside⟩
    have inside := valid.jump isJump
    omega
  · rw [valid.seq, Plan.numCommands, total]
    exact below.le
  · rw [valid.seq]
    exact below.trans_le room

theorem requests_beforeRound (initialised : ch.initialised = true) (asks : first + n ≤ last)
    (sent : List Output) :
    queuedWaypointSend (beforeRound layout answer ch m first last n sent).channel =
      [.missionRequest ch.waypointDest (first + n)] := by
  simp [queuedWaypointSend, beforeRound, initialised, asks]

theorem range'_push (first n : ℕ) :
    List.range' first n ++ [first + n] = List.range' first (n + 1) := by
  rw [List.range'_concat, one_mul]

section Round

variable (station : Address) (guided space : ℕ → Bool) (initialised : ch.initialised = true)
  {sent : List Output}
  (accepts : Accepts layout (beforeRound layout answer ch m first last n sent).channel
    (beforeRound layout answer ch m first last n sent).mission (answer (first + n)))

include initialised accepts

theorem round_goesOn (more : first + n + 1 < last) :
    ∃ sent', exchangeBody layout station answer guided space
      (beforeRound layout answer ch m first last n sent) =
        .inr (beforeRound layout answer ch m first last (n + 1) sent') := by
  have seq := accepts.awaited
  rw [exchangeBody, requests_beforeRound initialised (by omega)]
  simp only [handleMissionItem_goesOn accepts station (guided (first + n)) (space (first + n)) more]
  refine ⟨_, congrArg Sum.inr (congrArg₂ (fun m r => Exchange.mk _ m r _) ?_ (range'_push first n))⟩
  rw [seq]
  rfl

theorem round_finishes (asks : first + n ≤ last) (done : last ≤ first + n + 1) :
    exchangeBody layout station answer guided space
      (beforeRound layout answer ch m first last n sent) =
        .inr (afterRounds layout station answer ch m first last (n + 1)) := by
  have seq := accepts.awaited
  rw [exchangeBody, requests_beforeRound initialised asks]
  simp only [handleMissionItem_finishes accepts station (guided (first + n)) (space (first + n)) done]
  refine congrArg Sum.inr (congrArg₂ (fun m r => Exchange.mk _ m r _) ?_ (range'_push first n))
  rw [seq]
  rfl

end Round

theorem returns_afterRounds (initialised : ch.initialised = true) (order : first ≤ last)
    (below : last < m.cmdTotal) (room : m.cmdTotal ≤ numCommandsMax layout)
    (valid : ∀ seq, Valid m.cmdTotal seq (answer seq)) (sent : List Output)
    (active : first + n < max last (first + 1)) :
    Loop.Returns (exchangeBody layout station answer guided space)
      (beforeRound layout answer ch m first last n sent)
      (afterRounds layout station answer ch m first last (max last (first + 1) - first)) := by
  -- The rounds that are left shrink; a round that is not the last one leads before the next.
  induction left : max last (first + 1) - (first + n) generalizing n sent with
  | zero => omega
  | succ k ih =>
    have accepts := accepts_answer (valid (first + n)) (by omega) room ch last sent
    obtain more | done := lt_or_ge (first + n + 1) last
    · obtain ⟨sent', next⟩ := round_goesOn station guided space initialised accepts more
      exact .next next (ih sent' (by omega) (by omega))
    · apply Loop.Returns.next
        (round_finishes station guided space initialised accepts (by omega) done)
      rw [show max last (first + 1) - first = n + 1 by omega]
      exact .leave (by simp [exchangeBody, afterRounds, queuedWaypointSend])

end Rounds

/-! ## The result -/

theorem unsigned_natCast {index : ℕ} (small : index < 2 ^ 32) : unsigned (index : ℤ) = index := by
  unfold unsigned
  omega

theorem exchangeStart_eq (ch : Channel) (order : first ≤ last) (below : last < m.cmdTotal)
    (room : m.cmdTotal ≤ numCommandsMax layout) (answer : ℕ → Item) :
    exchangeStart ch m first last = beforeRound layout answer ch m first last 0 [] := by
  have small := StorageManager.size_lt layout .mission
  have rejected : partialRejected m first last = false := by
    unfold numCommandsMax at room
    rw [partialRejected, decide_eq_false_iff_not, unsigned_natCast (by omega),
      unsigned_natCast (by omega), Plan.numCommands]
    omega
  simp [exchangeStart, handleMissionWritePartialList, rejected, beforeRound, replacedBy]

/-- With valid answers, a partial list does what it is for exactly when it has a single command. -/
theorem partialList_updates_iff (layout : Layout) (station : Address) (ch : Channel) (m : Plan)
    {answer : ℕ → Item} (guided space : ℕ → Bool) {first last : ℕ}
    (initialised : ch.initialised = true) (order : first ≤ last) (below : last < m.numCommands)
    (room : m.numCommands ≤ numCommandsMax layout)
    (valid : ∀ seq, Valid m.numCommands seq (answer seq)) :
    ∃ x, Loop.Returns (exchangeBody layout station answer guided space)
        (exchangeStart ch m first last) x ∧
      (Updated layout station answer m first last x ↔ first = last) := by
  refine ⟨afterRounds layout station answer ch m first last (max last (first + 1) - first), ?_, ?_⟩
  · rw [exchangeStart_eq ch order below room answer]
    exact returns_afterRounds initialised order below room valid [] (by omega)
  constructor
  · intro updated
    have length := congrArg List.length updated.requested
    simp only [afterRounds, List.length_range'] at length
    omega
  · rintro rfl
    have one : max first (first + 1) - first = 1 := by omega
    rw [one]
    refine ⟨?_, List.mem_cons_self, cmdTotal_replacedBy below, fun i low high => ?_,
      fun i inside outside => ?_⟩
    · rw [show first + 1 - first = 1 by omega]
      rfl
    · exact (slotBytes_replacedBy (below.trans_le room) (by omega)).trans (if_pos (by omega))
    · exact (slotBytes_replacedBy (below.trans_le room) (by omega)).trans (if_neg (by omega))

/-- What the ground station sends. -/
def fourWaypoints : ℕ → Item := fun seq =>
  ⟨seq, 0, .accepted, ⟨waypoint 7, seq⟩, fun _ => waypoint_storable 7⟩

theorem fourWaypoints_valid (seq : ℕ) : Valid 4 seq (fourWaypoints seq) :=
  ⟨rfl, rfl, by simp [fourWaypoints], fun isJump => by cases isJump⟩

/-- The third command alone. -/
theorem thirdCommand_updated :
    let layout := StorageManager.layoutCopter .four
    let m : Plan := ⟨4, fun _ => 0, default⟩
    let ch : Channel := ⟨true, false, 0, 0, ⟨0, 0⟩⟩
    ∃ x, Loop.Returns (exchangeBody layout ⟨255, 190⟩ fourWaypoints (fun _ => false) (fun _ => true))
        (exchangeStart ch m 2 2) x ∧ Updated layout ⟨255, 190⟩ fourWaypoints m 2 2 x := by
  intro layout m ch
  obtain ⟨x, returns, updated⟩ := partialList_updates_iff layout ⟨255, 190⟩ ch m (fun _ => false)
    (fun _ => true) rfl (le_refl 2) (show 2 < 4 by decide) (by decide +kernel) fourWaypoints_valid
  exact ⟨x, returns, updated.2 rfl⟩

/-- The exchange is over after the first request, and the third command is unchanged. -/
theorem thirdCommand_not_requested :
    let layout := StorageManager.layoutCopter .four
    let m : Plan := ⟨4, fun _ => 0, default⟩
    let ch : Channel := ⟨true, false, 0, 0, ⟨0, 0⟩⟩
    (Loop.exec (exchangeBody layout ⟨255, 190⟩ fourWaypoints (fun _ => false) (fun _ => true)) 3
      (exchangeStart ch m 1 2)).map (fun x => (x.requested, x.channel.waypointReceiving, x.sent,
        slotBytes layout x.mission 2)) =
      some ([1], false, [.missionAck ⟨255, 190⟩ .accepted, .text .info "Flight plan received"],
        List.replicate 15 0) := by
  decide +kernel

end Tm4cPilot.Gcs
