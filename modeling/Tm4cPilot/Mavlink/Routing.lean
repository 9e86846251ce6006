import Tm4cPilot.Lib.Run

/-!
# MAVLink routing

`MAVLink_routing` learns on which channel the sender of a message can be reached, and passes
messages that are not only for this vehicle on to other channels.
-/

namespace Tm4cPilot.Mavlink

open List

/-- One of the `MAVLINK_COMM_NUM_BUFFERS` channels. -/
abbrev Channel := Fin 5

/-- `MAVLINK_MAX_ROUTES`. -/
def maxRoutes : ℕ := 20

/-- A received message. -/
structure Message where
  msgid : ℕ
  sysid : UInt8
  compid : UInt8
  len : ℕ
  payload : ℕ → UInt8

/-- Its message id. -/
def heartbeat : ℕ := 0

/-- `MAVLINK_MSG_ID_RADIO`. -/
def radio : ℕ := 166

/-- Its message id. -/
def radioStatus : ℕ := 109

/-- Its message id. -/
def adsbVehicle : ℕ := 246

/-- The flags of a message id and where its targets are. -/
structure MsgEntry where
  flags : UInt8
  targetSystemOfs : ℕ
  targetComponentOfs : ℕ

/-- `mavlink_system`, the message ids, and the channels in use. -/
structure System where
  sysid : UInt8
  compid : UInt8
  getMsgEntry : ℕ → Option MsgEntry
  links : Finset Channel
  noRouteMask : Finset Channel

/-- An entry of `routes`. -/
structure Route where
  sysid : UInt8
  compid : UInt8
  channel : Channel
  mavtype : UInt8
  deriving DecidableEq, Repr

/-- A message, its channel, and the room on every channel. -/
structure Reception where
  channel : Channel
  msg : Message
  txspace : Channel → ℕ
  overhead : Channel → ℕ

/-- There is room for the message. -/
def Reception.HasSpace (r : Reception) (c : Channel) : Prop := r.msg.len + r.overhead c ≤ r.txspace c
deriving Decidable

def Route.Same (a b : Route) : Prop :=
  a.sysid = b.sysid ∧ a.compid = b.compid ∧ a.channel = b.channel
deriving Decidable

/-- What tells routes apart. -/
def Route.key (route : Route) : UInt8 × UInt8 × Channel := (route.sysid, route.compid, route.channel)

/-- The type in a heartbeat. -/
def heartbeatType (msg : Message) : UInt8 := msg.payload 4

/-- The route to learn. -/
def Reception.route (r : Reception) : Route :=
  ⟨r.msg.sysid, r.msg.compid, r.channel,
    if r.msg.msgid = heartbeat then heartbeatType r.msg else 0⟩

namespace System

variable (own : System)

/-- The message is looped back. -/
def IsOwn (msg : Message) : Prop := msg.sysid = own.sysid ∧ msg.compid = own.compid
deriving Decidable

/-- The loop of `learn_route`; `known` routes are passed. -/
def learnLoop (r : Reception) (known : ℕ) : List Route → List Route
  | [] => if known < maxRoutes then [r.route] else []
  | route :: routes =>
    if route.Same r.route then
      (if route.mavtype = 0 ∧ r.msg.msgid = heartbeat
        then { route with mavtype := heartbeatType r.msg } else route) :: routes
    else route :: learnLoop r (known + 1) routes

def learnRoute (routes : List Route) (r : Reception) : List Route :=
  if r.msg.sysid = 0 ∨ own.IsOwn r.msg then routes else learnLoop r 0 routes

/-- `get_targets`, with -1 for no target. -/
def getTargets (msg : Message) : ℤ × ℤ :=
  match own.getMsgEntry msg.msgid with
  | none => (-1, -1)
  | some entry =>
    (if entry.flags &&& 1 ≠ 0 then (msg.payload entry.targetSystemOfs).toNat else -1,
      if entry.flags &&& 2 ≠ 0 then (msg.payload entry.targetComponentOfs).toNat else -1)

end System

/-- The channels resent on, `sent_to_chan` and `forwarded`. -/
structure Forwarding where
  resent : List Channel
  sentToChan : Channel → Bool
  forwarded : Bool

/-- Nothing is sent. -/
def Forwarding.start : Forwarding := ⟨[], fun _ => false, false⟩

/-- One route of the loop. -/
def Forwarding.next (r : Reception) (matched : Route → Bool) (f : Forwarding) (route : Route) :
    Forwarding :=
  if matched route = true ∧ r.channel ≠ route.channel ∧ f.sentToChan route.channel = false then
    { resent := if r.HasSpace route.channel then f.resent ++ [route.channel] else f.resent
      sentToChan := Function.update f.sentToChan route.channel true
      forwarded := true }
  else f

/-- The result, the routes and the channels resent on. -/
structure Handled where
  processLocally : Bool
  routes : List Route
  resent : List Channel

namespace System

variable (own : System)

/-- `handle_heartbeat`: the channels a heartbeat is resent on. -/
def handleHeartbeat (routes : List Route) (r : Reception) : List Channel :=
  (finRange 5).filter fun c =>
    c ∈ own.links ∧ c ≠ r.channel ∧ c ∉ own.noRouteMask ∧
      (¬ ∃ route ∈ routes, route.sysid = r.msg.sysid ∧ route.compid = r.msg.compid ∧
        route.channel = c) ∧ r.HasSpace c

/-- `broadcast_system` and `broadcast_component`. -/
def broadcast (target : ℤ) : Bool := decide (target = 0 ∨ target = -1)

def matchSystem (targetSystem : ℤ) : Bool :=
  broadcast targetSystem || decide (targetSystem = own.sysid.toNat)

/-- `match_system` and the component. -/
def matchComponent (targetSystem targetComponent : ℤ) : Bool :=
  own.matchSystem targetSystem &&
    (broadcast targetComponent || decide (targetComponent = own.compid.toNat))

/-- The message goes to this route. -/
def routeMatches (targetSystem targetComponent : ℤ) (route : Route) : Bool :=
  broadcast targetSystem ||
    (decide (targetSystem = route.sysid.toNat) &&
      (broadcast targetComponent || decide (targetComponent = route.compid.toNat) ||
        !own.matchSystem targetSystem))

/-- A message that is not special. -/
def forward (routes : List Route) (r : Reception) : Handled :=
  let targetSystem := (own.getTargets r.msg).1
  let targetComponent := (own.getTargets r.msg).2
  let processLocally := own.matchSystem targetSystem &&
    own.matchComponent targetSystem targetComponent
  if processLocally && !broadcast targetSystem && !broadcast targetComponent then
    ⟨true, routes, []⟩
  else
    let f := routes.foldl (Forwarding.next r (own.routeMatches targetSystem targetComponent)) .start
    ⟨if !f.forwarded && own.matchSystem targetSystem then true else processLocally, routes,
      f.resent⟩

def checkAndForward (routes : List Route) (r : Reception) : Handled :=
  if own.IsOwn r.msg then ⟨true, routes, []⟩
  else
    let learned := own.learnRoute routes r
    if r.msg.msgid = radio ∨ r.msg.msgid = radioStatus then ⟨true, learned, []⟩
    else if r.msg.msgid = heartbeat then ⟨true, learned, own.handleHeartbeat learned r⟩
    else if r.msg.msgid = adsbVehicle then ⟨true, learned, []⟩
    else own.forward learned r

/-- The routes after the messages. -/
def routesAfter (receptions : List Reception) : List Route :=
  Run.run (fun routes r => (own.checkAndForward routes r).routes) [] receptions

/-- The components and channels, as they were first heard. -/
def heard (receptions : List Reception) : List (UInt8 × UInt8 × Channel) :=
  ((receptions.filter fun r => ¬ (r.msg.sysid = 0 ∨ own.IsOwn r.msg)).map
    (·.route.key)).reverse.dedup.reverse

end System

/-! ## What the routing table knows -/

/-- A message came from there. -/
def Seen (receptions : List Reception) (c : Channel) (sysid compid : UInt8) : Prop :=
  ∃ r ∈ receptions, r.channel = c ∧ r.msg.sysid = sysid ∧ r.msg.compid = compid
deriving Decidable

/-- The sender was learned. -/
def Known (own : System) (receptions : List Reception) (c : Channel) (sysid compid : UInt8) :
    Prop :=
  sysid ≠ 0 ∧ ¬ (sysid = own.sysid ∧ compid = own.compid) ∧ Seen receptions c sysid compid

/-- There is such a route. -/
def Routed (routes : List Route) (c : Channel) (sysid compid : UInt8) : Prop :=
  ∃ route ∈ routes, route.channel = c ∧ route.sysid = sysid ∧ route.compid = compid

@[simp]
theorem routed_nil (c : Channel) (sysid compid : UInt8) : ¬ Routed [] c sysid compid := by
  simp [Routed]

@[simp]
theorem routed_cons (route : Route) (routes : List Route) (c : Channel) (sysid compid : UInt8) :
    Routed (route :: routes) c sysid compid ↔
      (route.channel = c ∧ route.sysid = sysid ∧ route.compid = compid) ∨
        Routed routes c sysid compid := by
  simp [Routed]

namespace System

variable {own : System}

theorem checkAndForward_routes (routes : List Route) (r : Reception) :
    (own.checkAndForward routes r).routes = own.learnRoute routes r := by
  unfold checkAndForward learnRoute forward
  by_cases loop : own.IsOwn r.msg
  · simp [loop]
  · simp only [loop, if_false]
    split_ifs <;> rfl

theorem learnLoop_length (r : Reception) (known : ℕ) (routes : List Route) :
    routes.length ≤ (learnLoop r known routes).length := by
  induction routes generalizing known with
  | nil => exact Nat.zero_le _
  | cons route routes ih =>
    rw [learnLoop]
    split_ifs
    · exact le_rfl
    · exact le_rfl
    · exact Nat.succ_le_succ (ih (known + 1))

theorem learnLoop_routed (r : Reception) (known : ℕ) (routes : List Route)
    (room : known + routes.length < maxRoutes) (c : Channel) (sysid compid : UInt8) :
    Routed (learnLoop r known routes) c sysid compid ↔ Routed routes c sysid compid ∨
      (r.channel = c ∧ r.msg.sysid = sysid ∧ r.msg.compid = compid) := by
  induction routes generalizing known with
  | nil =>
    have room : known < maxRoutes := by simpa using room
    simp only [learnLoop, room, if_true, routed_cons, routed_nil, Reception.route, or_false,
      false_or]
  | cons route routes ih =>
    rw [learnLoop]
    by_cases same : route.Same r.route
    · rw [if_pos same]
      obtain ⟨sysid_eq, compid_eq, channel_eq⟩ := same
      split_ifs <;> simp only [routed_cons, sysid_eq, compid_eq, channel_eq] <;> tauto
    · rw [if_neg same, routed_cons, routed_cons, or_assoc,
        ih (known + 1) (by simp only [length_cons] at room; omega)]

theorem learnRoute_length (routes : List Route) (r : Reception) :
    routes.length ≤ (own.learnRoute routes r).length := by
  unfold learnRoute
  split_ifs
  · exact le_rfl
  · exact learnLoop_length r 0 routes

theorem routesAfter_concat (receptions : List Reception) (r : Reception) :
    own.routesAfter (receptions ++ [r]) = own.learnRoute (own.routesAfter receptions) r := by
  simp only [routesAfter, Run.run, foldl_append, foldl_cons, foldl_nil,
    checkAndForward_routes]

theorem learnRoute_routed {routes : List Route} (room : routes.length < maxRoutes) (r : Reception)
    (c : Channel) (sysid compid : UInt8) :
    Routed (own.learnRoute routes r) c sysid compid ↔ Routed routes c sysid compid ∨
      (¬ (r.msg.sysid = 0 ∨ own.IsOwn r.msg) ∧
        r.channel = c ∧ r.msg.sysid = sysid ∧ r.msg.compid = compid) := by
  unfold learnRoute
  split_ifs with skipped
  · simp [skipped]
  · rw [learnLoop_routed r 0 routes (by simpa using room)]
    simp [skipped]

theorem learnRoute_known {routes : List Route} {receptions : List Reception}
    (known : ∀ c sysid compid, Routed routes c sysid compid ↔ Known own receptions c sysid compid)
    (room : routes.length < maxRoutes) (r : Reception) (c : Channel) (sysid compid : UInt8) :
    Routed (own.learnRoute routes r) c sysid compid ↔
      Known own (receptions ++ [r]) c sysid compid := by
  rw [learnRoute_routed room, known]
  simp only [Known, Seen, mem_append, mem_singleton, or_and_right, exists_or,
    exists_eq_left, IsOwn]
  constructor
  · rintro (⟨nonzero, notOwn, seen⟩ | ⟨skipped, rfl, rfl, rfl⟩)
    · exact ⟨nonzero, notOwn, Or.inl seen⟩
    · rw [not_or] at skipped
      exact ⟨skipped.1, skipped.2, Or.inr ⟨rfl, rfl, rfl⟩⟩
  · rintro ⟨nonzero, notOwn, seen | ⟨rfl, rfl, rfl⟩⟩
    · exact Or.inl ⟨nonzero, notOwn, seen⟩
    · exact Or.inr ⟨not_or.mpr ⟨nonzero, notOwn⟩, rfl, rfl, rfl⟩

theorem routesAfter_known {receptions : List Reception}
    (room : (own.routesAfter receptions).length < maxRoutes) (c : Channel) (sysid compid : UInt8) :
    Routed (own.routesAfter receptions) c sysid compid ↔
      Known own receptions c sysid compid := by
  induction receptions using reverseRecOn generalizing c sysid compid with
  | nil => simp [routesAfter, Known, Seen]
  | append_singleton receptions r ih =>
    rw [routesAfter_concat] at room ⊢
    have before := (learnRoute_length _ r).trans_lt room
    exact learnRoute_known (ih before) before r c sysid compid

theorem keys_learnLoop (r : Reception) (known : ℕ) (routes : List Route) :
    (learnLoop r known routes).map Route.key =
      if r.route.key ∈ routes.map Route.key ∨ maxRoutes ≤ known + routes.length
        then routes.map Route.key else routes.map Route.key ++ [r.route.key] := by
  induction routes generalizing known with
  | nil => grind [learnLoop]
  | cons route routes ih => grind [learnLoop, Route.Same, Route.key]

theorem heard_concat (receptions : List Reception) (r : Reception) :
    own.heard (receptions ++ [r]) =
      if (r.msg.sysid = 0 ∨ own.IsOwn r.msg) ∨ r.route.key ∈ own.heard receptions
        then own.heard receptions else own.heard receptions ++ [r.route.key] := by
  simp only [heard, filter_append, map_append, reverse_append, mem_reverse, mem_dedup]
  by_cases skipped : r.msg.sysid = 0 ∨ own.IsOwn r.msg
  · rw [if_pos (Or.inl skipped), filter_cons_of_neg (by simp [skipped])]
    rfl
  · rw [filter_cons_of_pos (by simp [skipped]), filter_nil, map_singleton, reverse_singleton,
      singleton_append]
    split_ifs with again
    · rw [dedup_cons_of_mem (by simpa [skipped] using again)]
    · rw [dedup_cons_of_notMem (by simpa [skipped] using again), reverse_cons]

/-- After any receptions the table holds the components that were heard first, in their order. -/
theorem routesAfter_eq_heard (own : System) (receptions : List Reception) :
    (own.routesAfter receptions).map Route.key = (own.heard receptions).take maxRoutes := by
  induction receptions using reverseRecOn with
  | nil => rfl
  | append_singleton receptions r ih =>
    rw [routesAfter_concat, learnRoute, heard_concat]
    by_cases skipped : r.msg.sysid = 0 ∨ own.IsOwn r.msg
    · rw [if_pos skipped, if_pos (Or.inl skipped), ih]
    · rw [if_neg skipped, keys_learnLoop, ← length_map Route.key, ih]
      -- the table is full, or it holds all that were heard
      obtain full | room := le_or_gt maxRoutes (own.heard receptions).length
      · grind
      · rw [take_of_length_le room.le, take_of_length_le (by grind)]
        grind

end System

end Tm4cPilot.Mavlink
