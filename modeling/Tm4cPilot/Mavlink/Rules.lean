import Tm4cPilot.Mavlink.Routing

/-!
# The rules of MAVLink routing

The source states when a message is processed locally (1a to 1e) and when it is forwarded onto a
link (2a to 2d). `follows_rules_iff` says exactly when `check_and_forward` does that.
-/

namespace Tm4cPilot.Mavlink

open List

namespace System

variable (own : System)

/-- The system a message is for. -/
def targetSystem (msg : Message) : Option UInt8 :=
  (own.getMsgEntry msg.msgid).bind fun entry =>
    if entry.flags &&& 1 ≠ 0 then some (msg.payload entry.targetSystemOfs) else none

/-- The component it is for. -/
def targetComponent (msg : Message) : Option UInt8 :=
  (own.getMsgEntry msg.msgid).bind fun entry =>
    if entry.flags &&& 2 ≠ 0 then some (msg.payload entry.targetComponentOfs) else none

end System

/-- A target as `get_targets` returns it. -/
def targetCode : Option UInt8 → ℤ
  | none => -1
  | some v => v.toNat

def Broadcast (target : Option UInt8) : Prop := target = none ∨ target = some 0
deriving Decidable

theorem targetCode_eq_toNat {target : Option UInt8} {v : UInt8} :
    targetCode target = v.toNat ↔ target = some v := by
  cases target with
  | none => simp [targetCode]
  | some w => simp [targetCode, UInt8.toNat_inj]

theorem broadcast_targetCode {target : Option UInt8} :
    System.broadcast (targetCode target) = true ↔ Broadcast target := by
  unfold System.broadcast Broadcast
  cases target with
  | none => simp [targetCode]
  | some w =>
    have zero : (w.toNat : ℤ) = 0 ↔ w = 0 := by
      rw [Int.natCast_eq_zero, ← UInt8.toNat_inj]
      rfl
    have absent : ¬ (w.toNat : ℤ) = -1 := by omega
    simp only [targetCode, decide_eq_true_eq, zero, absent, Option.some.injEq, reduceCtorEq,
      false_or, or_false]

namespace System

variable {own : System}

theorem getTargets_eq (msg : Message) :
    own.getTargets msg =
      (targetCode (own.targetSystem msg), targetCode (own.targetComponent msg)) := by
  unfold getTargets targetSystem targetComponent
  cases own.getMsgEntry msg.msgid with
  | none => rfl
  | some entry => simp only [Option.bind_some]; split_ifs <;> rfl

theorem matchSystem_targetCode {target : Option UInt8} :
    own.matchSystem (targetCode target) = true ↔ Broadcast target ∨ target = some own.sysid := by
  simp [matchSystem, broadcast_targetCode, targetCode_eq_toNat]

theorem matchComponent_targetCode {ts tc : Option UInt8} :
    own.matchComponent (targetCode ts) (targetCode tc) = true ↔
      (Broadcast ts ∨ ts = some own.sysid) ∧ (Broadcast tc ∨ tc = some own.compid) := by
  simp [matchComponent, matchSystem_targetCode, broadcast_targetCode, targetCode_eq_toNat]

theorem routeMatches_targetCode {ts tc : Option UInt8} {route : Route} :
    own.routeMatches (targetCode ts) (targetCode tc) route = true ↔
      Broadcast ts ∨ (ts = some route.sysid ∧
        (Broadcast tc ∨ tc = some route.compid ∨ ¬ (Broadcast ts ∨ ts = some own.sysid))) := by
  simp only [routeMatches, Bool.or_eq_true, Bool.and_eq_true, decide_eq_true_eq,
    broadcast_targetCode, targetCode_eq_toNat, Bool.not_eq_true', ← Bool.not_eq_true,
    matchSystem_targetCode, or_assoc]

end System

/-- A matched route leads over the channel. -/
def Reached (routes : List Route) (matched : Route → Bool) (c : Channel) : Prop :=
  ∃ route ∈ routes, route.channel = c ∧ matched route = true

theorem reached_concat {routes : List Route} {route : Route} {matched : Route → Bool}
    {c : Channel} : Reached (routes ++ [route]) matched c ↔
      Reached routes matched c ∨ (route.channel = c ∧ matched route = true) := by
  simp [Reached, or_and_right, exists_or]

/-- One copy on every other channel of a matched route. -/
structure Forwarding.Done (r : Reception) (reached : Channel → Prop) (f : Forwarding) : Prop where
  nodup : f.resent.Nodup
  mem : ∀ c, c ∈ f.resent ↔ c ≠ r.channel ∧ reached c
  sent : ∀ c, f.sentToChan c = true ↔ c ∈ f.resent
  forwarded : f.forwarded = true ↔ ∃ c, c ∈ f.resent

variable {r : Reception}

theorem Forwarding.Done.next (space : ∀ c, r.HasSpace c) {matched : Route → Bool}
    {routes : List Route} {f : Forwarding} (done : f.Done r (Reached routes matched))
    (route : Route) :
    (f.next r matched route).Done r (Reached (routes ++ [route]) matched) := by
  unfold Forwarding.next
  by_cases sends : matched route = true ∧ r.channel ≠ route.channel ∧
      f.sentToChan route.channel = false
  · obtain ⟨hit, other, unsent⟩ := sends
    have fresh : route.channel ∉ f.resent := by
      rw [← done.sent, unsent]
      exact Bool.false_ne_true
    rw [if_pos ⟨hit, other, unsent⟩, if_pos (space _)]
    refine ⟨?_, fun c => ?_, fun c => ?_, ?_⟩
    · rw [nodup_append]
      exact ⟨done.nodup, nodup_singleton _, by
        rintro c member _ found rfl
        rw [mem_singleton] at found
        exact fresh (found ▸ member)⟩
    · rw [mem_append, mem_singleton, done.mem, reached_concat]
      constructor
      · rintro (⟨ne, reached⟩ | rfl)
        · exact ⟨ne, .inl reached⟩
        · exact ⟨other.symm, .inr ⟨rfl, hit⟩⟩
      · rintro ⟨ne, reached | ⟨rfl, -⟩⟩
        · exact .inl ⟨ne, reached⟩
        · exact .inr rfl
    · rw [mem_append, mem_singleton, ← done.sent]
      by_cases same : c = route.channel <;> simp [same]
    · exact iff_of_true rfl ⟨route.channel, by simp⟩
  · rw [if_neg sends]
    refine ⟨done.nodup, fun c => ?_, done.sent, done.forwarded⟩
    rw [done.mem, reached_concat]
    refine and_congr_right fun ne => (or_iff_left_of_imp ?_).symm
    rintro ⟨rfl, hit⟩
    have sent : f.sentToChan route.channel = true := by
      by_contra unsent
      exact sends ⟨hit, ne.symm, by simpa using unsent⟩
    exact ((done.mem _).mp ((done.sent _).mp sent)).2

theorem forwarding_done (space : ∀ c, r.HasSpace c) (matched : Route → Bool) (routes : List Route) :
    (routes.foldl (Forwarding.next r matched) .start).Done r (Reached routes matched) := by
  induction routes using reverseRecOn with
  | nil => exact ⟨nodup_nil, by simp [Forwarding.start, Reached], by simp [Forwarding.start],
      by simp [Forwarding.start]⟩
  | append_singleton routes route ih =>
    rw [foldl_append]
    exact ih.next space route

/-! ## What is sent and returned -/

section Forward

variable {own : System} {routes : List Route} {r : Reception}

/-- A route for the targets. -/
def Chosen (own : System) (routes : List Route) (ts tc : Option UInt8) (c : Channel) : Prop :=
  ∃ sysid compid, Routed routes c sysid compid ∧ (Broadcast ts ∨ (ts = some sysid ∧
    (Broadcast tc ∨ tc = some compid ∨ ¬ (Broadcast ts ∨ ts = some own.sysid))))

theorem reached_iff_chosen (ts tc : Option UInt8) (c : Channel) :
    Reached routes (own.routeMatches (targetCode ts) (targetCode tc)) c ↔
      Chosen own routes ts tc c := by
  simp only [Reached, Chosen, Routed, System.routeMatches_targetCode]
  constructor
  · rintro ⟨route, member, rfl, hit⟩
    exact ⟨route.sysid, route.compid, ⟨route, member, rfl, rfl, rfl⟩, hit⟩
  · rintro ⟨_, _, ⟨route, member, rfl, rfl, rfl⟩, hit⟩
    exact ⟨route, member, rfl, hit⟩

/-- It is for this component alone. -/
def OnlyOwn (own : System) (ts tc : Option UInt8) : Prop :=
  ¬ Broadcast ts ∧ ts = some own.sysid ∧ ¬ Broadcast tc ∧ tc = some own.compid

/-- `forward` in terms of the targets and the routes. -/
structure ForwardResult (own : System) (routes : List Route) (r : Reception)
    (ts tc : Option UInt8) (h : Handled) : Prop where
  processLocally : h.processLocally = true ↔ (Broadcast ts ∨ ts = some own.sysid) ∧
    (Broadcast tc ∨ tc = some own.compid ∨ ¬ ∃ c, c ≠ r.channel ∧ Chosen own routes ts tc c)
  mem : ∀ c, c ∈ h.resent ↔ ¬ OnlyOwn own ts tc ∧ c ≠ r.channel ∧ Chosen own routes ts tc c
  nodup : h.resent.Nodup

theorem forward_result (space : ∀ c, r.HasSpace c) :
    ForwardResult own routes r (own.targetSystem r.msg) (own.targetComponent r.msg)
      (own.forward routes r) := by
  unfold System.forward
  simp only [System.getTargets_eq]
  generalize own.targetSystem r.msg = ts
  generalize own.targetComponent r.msg = tc
  have early : (own.matchSystem (targetCode ts) &&
      own.matchComponent (targetCode ts) (targetCode tc) &&
      !System.broadcast (targetCode ts) && !System.broadcast (targetCode tc)) = true ↔
      OnlyOwn own ts tc := by
    simp only [Bool.and_eq_true, Bool.not_eq_true', ← Bool.not_eq_true,
      System.matchSystem_targetCode, System.matchComponent_targetCode, broadcast_targetCode,
      OnlyOwn]
    tauto
  by_cases only : OnlyOwn own ts tc
  · rw [if_pos (early.mpr only)]
    exact ⟨by simp [only.2.1, only.2.2.2], by simp [only], nodup_nil⟩
  · rw [if_neg (mt early.mp only)]
    have done := forwarding_done space (own.routeMatches (targetCode ts) (targetCode tc)) routes
    generalize routes.foldl _ Forwarding.start = f at done
    have mem (c : Channel) : c ∈ f.resent ↔ c ≠ r.channel ∧ Chosen own routes ts tc c := by
      rw [done.mem, reached_iff_chosen]
    have forwarded : f.forwarded = true ↔ ∃ c, c ≠ r.channel ∧ Chosen own routes ts tc c := by
      simp only [done.forwarded, mem]
    refine ⟨?_, fun c => by simp only [only, not_false_eq_true, true_and, mem], done.nodup⟩
    simp only [Bool.if_true_left, Bool.or_eq_true, decide_eq_true_eq, Bool.and_eq_true,
      Bool.not_eq_true', ← Bool.not_eq_true, forwarded, System.matchSystem_targetCode,
      System.matchComponent_targetCode]
    rw [and_self_left, and_comm, ← and_or_left]
    exact and_congr Iff.rfl (or_comm.trans or_assoc)

end Forward

section Rules

variable (own : System) (seen : List Reception) (r : Reception)

/-- Not the link it came on. -/
def OtherLink (link : Channel) : Prop := link ∈ own.links ∧ link ≠ r.channel

/-- Rules 1a to 1e. -/
def Local : Prop :=
  let ts := own.targetSystem r.msg
  let tc := own.targetComponent r.msg
  ts = none ∨ ts = some 0 ∨ (ts = some own.sysid ∧ tc = none) ∨
    (ts = some own.sysid ∧ tc = some own.compid) ∨
    (ts = some own.sysid ∧ ∃ compid ∈ tc, ∀ link ∈ own.links, ¬ Seen seen link own.sysid compid)

/-- Rules 2a to 2d. -/
def Forward (link : Channel) : Prop :=
  let ts := own.targetSystem r.msg
  let tc := own.targetComponent r.msg
  ts = none ∨ ts = some 0 ∨
    (∃ sysid ∈ ts, sysid ≠ own.sysid ∧ ∃ compid, Seen seen link sysid compid) ∨
    (ts = some own.sysid ∧ ∃ compid ∈ tc, Seen seen link own.sysid compid)

/-- Not handled specially. -/
def Ordinary : Prop :=
  r.msg.msgid ≠ radio ∧ r.msg.msgid ≠ radioStatus ∧ r.msg.msgid ≠ heartbeat ∧
    r.msg.msgid ≠ adsbVehicle

/-- Treated by the rules, and no link got two copies. -/
structure Follows (h : Handled) : Prop where
  processLocally : h.processLocally = true ↔ Local own seen r
  mem : ∀ link, link ∈ h.resent ↔ OtherLink own r link ∧ Forward own seen r link
  nodup : h.resent.Nodup

/-- `check_and_forward` follows the rules after these messages. -/
def FollowsRules (earlier : List Reception) : Prop :=
  Follows own (earlier ++ [r]) r (own.checkAndForward (own.routesAfter earlier) r)

/-! ## When they are followed -/

/-- Someone was heard on the link. -/
def Heard (link : Channel) : Prop := ∃ sysid compid, Known own seen link sysid compid

/-- Another component of this system was. -/
def ComponentHeard (link : Channel) : Prop :=
  ∃ compid, compid ≠ own.compid ∧ Seen seen link own.sysid compid

/-- Someone was heard on every other link, and it is for no other component. -/
def BroadcastAsRuled (tc : Option UInt8) : Prop :=
  (∀ link, ¬ OtherLink own r link) ∨
    (¬ own.IsOwn r.msg ∧ (∀ link, OtherLink own r link → Heard own seen link) ∧
      (Broadcast tc ∨ tc = some own.compid))

/-- No other component on another link, or by the case of the component. -/
def OwnAsRuled (tc : Option UInt8) : Prop :=
  match tc with
  | none => own.IsOwn r.msg ∨ ∀ link, OtherLink own r link → ¬ ComponentHeard own seen link
  | some compid =>
    if compid = own.compid ∧ (own.IsOwn r.msg ∨ compid ≠ 0) then
      ∀ link, OtherLink own r link → ¬ Seen seen link own.sysid compid
    else if own.IsOwn r.msg then ∀ link ∈ own.links, ¬ Seen seen link own.sysid compid
    else if compid = 0 then
      (own.compid = 0 ∨ ∀ link ∈ own.links, ¬ Seen seen link own.sysid 0) ∧
        ∀ link, OtherLink own r link → (ComponentHeard own seen link ↔ Seen seen link own.sysid 0)
    else Seen seen r.channel own.sysid compid →
      ∃ link, OtherLink own r link ∧ Seen seen link own.sysid compid

/-- The condition for all messages. -/
def AsRuled : Prop :=
  if Broadcast (own.targetSystem r.msg) then
    BroadcastAsRuled own seen r (own.targetComponent r.msg)
  else if own.targetSystem r.msg = some own.sysid then
    OwnAsRuled own seen r (own.targetComponent r.msg)
  else ¬ own.IsOwn r.msg

end Rules

section Exact

variable {own : System} {seen : List Reception} {r : Reception} {routes : List Route}

variable {sysid compid : UInt8}

theorem Seen.mem_links (onLinks : ∀ x ∈ seen, x.channel ∈ own.links) {link : Channel}
    (h : Seen seen link sysid compid) : link ∈ own.links := by
  obtain ⟨x, member, rfl, -, -⟩ := h
  exact onLinks x member

/-- Unseen on the other links is unseen at all, unless it was seen on this link alone. -/
theorem unseen_elsewhere_iff (onLinks : ∀ x ∈ seen, x.channel ∈ own.links) :
    ((¬ ∃ link, link ≠ r.channel ∧ Seen seen link sysid compid) ↔
        ∀ link ∈ own.links, ¬ Seen seen link sysid compid) ↔
      (Seen seen r.channel sysid compid →
        ∃ link, OtherLink own r link ∧ Seen seen link sysid compid) := by
  constructor
  · intro agree here
    by_contra none
    refine agree.mp (fun ⟨link, ne, seen⟩ => none ⟨link, ⟨seen.mem_links onLinks, ne⟩, seen⟩)
      r.channel (here.mem_links onLinks) here
  · intro elsewhere
    constructor
    · intro none link _ seen
      by_cases same : link = r.channel
      · obtain ⟨other, isOther, seen⟩ := elsewhere (same ▸ seen)
        exact none ⟨other, isOther.2, seen⟩
      · exact none ⟨link, same, seen⟩
    · rintro none ⟨link, -, seen⟩
      exact none link (seen.mem_links onLinks) seen

theorem follows_iff {h : Handled} (nodup : h.resent.Nodup) {done : Prop} {reach : Channel → Prop}
    (processed : h.processLocally = true ↔ done)
    (resent : ∀ link, link ∈ h.resent ↔ link ≠ r.channel ∧ reach link)
    (linked : ∀ link, reach link → link ∈ own.links) :
    Follows own seen r h ↔ (done ↔ Local own seen r) ∧
      ∀ link, OtherLink own r link → (reach link ↔ Forward own seen r link) := by
  constructor
  · intro follows
    refine ⟨processed.symm.trans follows.processLocally, fun link other => ?_⟩
    have here := follows.mem link
    rw [resent] at here
    exact ⟨fun reached => (here.mp ⟨other.2, reached⟩).2, fun ruled => (here.mpr ⟨other, ruled⟩).2⟩
  · rintro ⟨locally, forwarded⟩
    refine ⟨processed.trans locally, fun link => ?_, nodup⟩
    rw [resent]
    constructor
    · rintro ⟨ne, reached⟩
      have other : OtherLink own r link := ⟨linked link reached, ne⟩
      exact ⟨other, (forwarded link other).mp reached⟩
    · rintro ⟨other, ruled⟩
      exact ⟨other.2, (forwarded link other).mpr ruled⟩

theorem checkAndForward_ordinary (ordinary : Ordinary r) (foreign : ¬ own.IsOwn r.msg) :
    own.checkAndForward routes r = own.forward (own.learnRoute routes r) r := by
  obtain ⟨h1, h2, h3, h4⟩ := ordinary
  simp only [System.checkAndForward, foreign, h1, h2, h3, h4, or_self, if_false]

variable (known : ∀ c sysid compid,
  Routed routes c sysid compid ↔ Known own seen c sysid compid) {ts tc : Option UInt8}
include known

theorem chosen_broadcast (broadcast : Broadcast ts) (c : Channel) :
    Chosen own routes ts tc c ↔ Heard own seen c := by
  simp only [Chosen, Heard, broadcast, true_or, and_true, known]

theorem chosen_foreign (nonzero : sysid ≠ 0) (foreign : sysid ≠ own.sysid) (c : Channel) :
    Chosen own routes (some sysid) tc c ↔ ∃ compid, Seen seen c sysid compid := by
  simp only [Chosen, Broadcast, known, Known]
  constructor
  · rintro ⟨s, k, ⟨-, -, seen⟩, rest⟩
    obtain rfl : sysid = s := by simpa [nonzero] using rest.imp_right And.left
    exact ⟨k, seen⟩
  · rintro ⟨k, seen⟩
    exact ⟨sysid, k, ⟨nonzero, fun h => foreign h.1, seen⟩, by simp [nonzero, foreign]⟩

theorem chosen_own_broadcast (nonzero : own.sysid ≠ 0) (broadcast : Broadcast tc) (c : Channel) :
    Chosen own routes (some own.sysid) tc c ↔ ComponentHeard own seen c := by
  simp only [Chosen, known, Known, ComponentHeard, broadcast, true_or, and_true]
  constructor
  · rintro ⟨s, k, ⟨-, notOwn, seen⟩, rest⟩
    obtain rfl : own.sysid = s := by simpa [Broadcast, nonzero] using rest
    exact ⟨k, fun h => notOwn ⟨rfl, h⟩, seen⟩
  · rintro ⟨k, ne, seen⟩
    exact ⟨own.sysid, k, ⟨nonzero, fun h => ne h.2, seen⟩, .inr rfl⟩

theorem chosen_own_component (nonzero : own.sysid ≠ 0) (component : compid ≠ 0) (c : Channel) :
    Chosen own routes (some own.sysid) (some compid) c ↔
      compid ≠ own.compid ∧ Seen seen c own.sysid compid := by
  simp only [Chosen, known, Known, Broadcast]
  constructor
  · rintro ⟨s, k, ⟨-, notOwn, seen⟩, rest⟩
    obtain ⟨rfl, rfl⟩ : own.sysid = s ∧ compid = k := by simpa [nonzero, component] using rest
    exact ⟨fun h => notOwn ⟨rfl, h⟩, seen⟩
  · rintro ⟨ne, seen⟩
    exact ⟨own.sysid, compid, ⟨nonzero, fun h => ne h.2, seen⟩, by simp⟩

variable (onLinks : ∀ x ∈ seen, x.channel ∈ own.links) {h : Handled}
  (result : ForwardResult own routes r (own.targetSystem r.msg) (own.targetComponent r.msg) h)
include onLinks result

theorem follows_broadcast (foreign : ¬ own.IsOwn r.msg)
    (broadcast : Broadcast (own.targetSystem r.msg)) :
    Follows own seen r h ↔ BroadcastAsRuled own seen r (own.targetComponent r.msg) := by
  have chosen (link : Channel) :
      Chosen own routes (own.targetSystem r.msg) (own.targetComponent r.msg) link ↔
        Heard own seen link := chosen_broadcast known broadcast link
  have ruledLocal : Local own seen r := broadcast.imp_right .inl
  have ruledForward (link : Channel) : Forward own seen r link := broadcast.imp_right .inl
  have linked (link : Channel) (heard : Heard own seen link) : link ∈ own.links := by
    obtain ⟨_, _, -, -, seen⟩ := heard
    exact seen.mem_links onLinks
  have resent (link : Channel) : link ∈ h.resent ↔ link ≠ r.channel ∧ Heard own seen link := by
    rw [result.mem, chosen]
    exact and_iff_right fun only => only.1 broadcast
  have processed : h.processLocally = true ↔ Broadcast (own.targetComponent r.msg) ∨
      own.targetComponent r.msg = some own.compid ∨
        ¬ ∃ link, link ≠ r.channel ∧ Heard own seen link := by
    simp only [result.processLocally, broadcast, true_or, true_and, chosen]
  rw [follows_iff result.nodup processed resent linked]
  simp only [ruledLocal, ruledForward, iff_true, BroadcastAsRuled, foreign, not_false_eq_true,
    true_and]
  constructor
  · rintro ⟨component | component | none, heard⟩
    · exact .inr ⟨heard, .inl component⟩
    · exact .inr ⟨heard, .inr component⟩
    · exact .inl fun link other => none ⟨link, other.2, heard link other⟩
  · rintro (none | ⟨heard, component⟩)
    · exact ⟨.inr (.inr fun ⟨link, ne, heard⟩ => none link ⟨linked link heard, ne⟩),
        fun link other => absurd other (none link)⟩
    · exact ⟨component.imp_right .inl, heard⟩

theorem follows_foreign (single : ¬ Broadcast (own.targetSystem r.msg))
    (other : own.targetSystem r.msg ≠ some own.sysid) : Follows own seen r h := by
  cases target : own.targetSystem r.msg with
  | none => exact absurd (.inl target) single
  | some sysid =>
    rw [target] at result other single
    have nonzero : sysid ≠ 0 := fun zero => single (.inr (congrArg some zero))
    have ne : sysid ≠ own.sysid := fun same => other (congrArg some same)
    have processed : h.processLocally = true ↔ False := by
      simp [result.processLocally, Broadcast, nonzero, ne]
    have resent (link : Channel) :
        link ∈ h.resent ↔ link ≠ r.channel ∧ ∃ compid, Seen seen link sysid compid := by
      rw [result.mem, chosen_foreign known nonzero ne]
      exact and_iff_right fun only => other only.2.1
    rw [follows_iff result.nodup processed resent fun _ ⟨_, seen⟩ => seen.mem_links onLinks]
    simp [Local, Forward, target, nonzero, ne]

section

variable (foreign : ¬ own.IsOwn r.msg) (nonzero : own.sysid ≠ 0)
  (target : own.targetSystem r.msg = some own.sysid)

include foreign nonzero target

theorem follows_own_all (all : Broadcast (own.targetComponent r.msg)) :
    Follows own seen r h ↔ OwnAsRuled own seen r (own.targetComponent r.msg) := by
  rw [target] at result
  have linked (link : Channel) (heard : ComponentHeard own seen link) : link ∈ own.links := by
    obtain ⟨_, -, seen⟩ := heard
    exact seen.mem_links onLinks
  have processed : h.processLocally = true ↔ True := by simp [result.processLocally, all]
  have resent (link : Channel) :
      link ∈ h.resent ↔ link ≠ r.channel ∧ ComponentHeard own seen link := by
    rw [result.mem, chosen_own_broadcast known nonzero all]
    exact and_iff_right fun only => only.2.2.1 all
  rw [follows_iff result.nodup processed resent linked]
  rcases all with component | component
  · simp [Local, Forward, OwnAsRuled, target, component, nonzero, foreign]
  · simp [Local, Forward, OwnAsRuled, target, component, nonzero, foreign, eq_comm]

theorem follows_own_one (one : compid ≠ 0) (component : own.targetComponent r.msg = some compid) :
    Follows own seen r h ↔ OwnAsRuled own seen r (some compid) := by
  rw [target, component] at result
  by_cases ownComponent : compid = own.compid
  · have processed : h.processLocally = true ↔ True := by
      simp [result.processLocally, ownComponent]
    have resent (link : Channel) : link ∈ h.resent ↔ link ≠ r.channel ∧ False := by
      rw [result.mem]
      simp [OnlyOwn, Broadcast, nonzero, ownComponent ▸ one, ownComponent]
    rw [follows_iff result.nodup processed resent fun _ => False.elim]
    simp [Local, Forward, OwnAsRuled, target, component, nonzero, ownComponent, ownComponent ▸ one]
  · have processed : h.processLocally = true ↔
        ¬ ∃ link, link ≠ r.channel ∧ Seen seen link own.sysid compid := by
      simp [result.processLocally, Broadcast, one, ownComponent,
        chosen_own_component known nonzero one]
    have resent (link : Channel) :
        link ∈ h.resent ↔ link ≠ r.channel ∧ Seen seen link own.sysid compid := by
      rw [result.mem, chosen_own_component known nonzero one]
      simp [OnlyOwn, ownComponent]
    rw [follows_iff result.nodup processed resent fun _ seen => seen.mem_links onLinks]
    have ruledLocal : Local own seen r ↔ ∀ link ∈ own.links, ¬ Seen seen link own.sysid compid := by
      simp [Local, target, component, nonzero, ownComponent]
    have ruledForward (link : Channel) :
        Forward own seen r link ↔ Seen seen link own.sysid compid := by
      simp [Forward, target, component, nonzero]
    have ruled : OwnAsRuled own seen r (some compid) ↔ (Seen seen r.channel own.sysid compid →
        ∃ link, OtherLink own r link ∧ Seen seen link own.sysid compid) := by
      simp [OwnAsRuled, ownComponent, foreign, one]
    simp only [ruledLocal, ruledForward, ruled, implies_true, and_true, iff_self]
    exact unseen_elsewhere_iff onLinks

theorem follows_own :
    Follows own seen r h ↔ OwnAsRuled own seen r (own.targetComponent r.msg) := by
  by_cases all : Broadcast (own.targetComponent r.msg)
  · exact follows_own_all known onLinks result foreign nonzero target all
  · cases component : own.targetComponent r.msg with
    | none => exact absurd (.inl component) all
    | some compid =>
      have one : compid ≠ 0 := fun zero => all (.inr (component.trans (congrArg some zero)))
      exact follows_own_one known onLinks result foreign nonzero target one component

end

end Exact

theorem follows_loopback {own : System} {seen : List Reception} (loopback : own.IsOwn r.msg)
    (routes : List Route) : Follows own seen r ⟨true, routes, []⟩ ↔ AsRuled own seen r := by
  have unforwarded (link : Channel) :
      link ∈ (⟨true, routes, []⟩ : Handled).resent ↔ link ≠ r.channel ∧ False := by simp
  rw [follows_iff nodup_nil (iff_of_true rfl trivial) unforwarded fun _ => False.elim]
  unfold AsRuled
  by_cases broadcast : Broadcast (own.targetSystem r.msg)
  · have ruledLocal : Local own seen r := broadcast.imp_right .inl
    have ruledForward (link : Channel) : Forward own seen r link := broadcast.imp_right .inl
    simp [broadcast, BroadcastAsRuled, loopback, ruledLocal, ruledForward]
  · rw [if_neg broadcast]
    by_cases target : own.targetSystem r.msg = some own.sysid
    · have nonzero : own.sysid ≠ 0 := fun zero =>
        broadcast (.inr (target.trans (congrArg some zero)))
      cases component : own.targetComponent r.msg with
      | none => simp [Local, Forward, OwnAsRuled, target, component, nonzero, loopback]
      | some compid =>
        by_cases ownComponent : compid = own.compid
        · simp [Local, Forward, OwnAsRuled, target, component, nonzero, loopback, ownComponent]
        · have unseen : OwnAsRuled own seen r (some compid) ↔
              ∀ link ∈ own.links, ¬ Seen seen link own.sysid compid := by
            simp [OwnAsRuled, loopback, ownComponent]
          simp only [Local, Forward, target, component, nonzero, ownComponent, unseen, OtherLink,
            Option.some.injEq, Option.mem_def, exists_eq_left', reduceCtorEq, ne_eq,
            not_true_eq_false, and_false, false_and, false_or, true_and, true_iff, false_iff]
          exact and_iff_left_of_imp fun unseen link other => unseen link other.1
    · rw [if_neg target]
      have foreign : ¬ Local own seen r := by
        rintro (none | zero | ⟨same, -⟩ | ⟨same, -⟩ | ⟨same, -⟩)
        · exact broadcast (.inl none)
        · exact broadcast (.inr zero)
        · exact target same
        · exact target same
        · exact target same
      exact iff_of_false (fun h => foreign (h.1.mp trivial)) (not_not_intro loopback)

/-- `check_and_forward` follows its rules exactly for the messages of `AsRuled`. -/
theorem follows_rules_iff (own : System) (earlier : List Reception) (r : Reception)
    (room : (own.routesAfter earlier).length < maxRoutes) (space : ∀ c, r.HasSpace c)
    (ordinary : Ordinary r) (onLinks : ∀ x ∈ earlier ++ [r], x.channel ∈ own.links) :
    FollowsRules own r earlier ↔ AsRuled own (earlier ++ [r]) r := by
  unfold FollowsRules
  by_cases loopback : own.IsOwn r.msg
  · rw [System.checkAndForward, if_pos loopback]
    exact follows_loopback loopback _
  · have known := System.learnRoute_known (System.routesAfter_known room) room r
    have result : ForwardResult own (own.learnRoute (own.routesAfter earlier) r) r _ _ _ :=
      forward_result space
    rw [checkAndForward_ordinary ordinary loopback, AsRuled]
    by_cases broadcast : Broadcast (own.targetSystem r.msg)
    · rw [if_pos broadcast]
      exact follows_broadcast known onLinks result loopback broadcast
    · rw [if_neg broadcast]
      by_cases target : own.targetSystem r.msg = some own.sysid
      · have nonzero : own.sysid ≠ 0 := fun zero =>
          broadcast (.inr (target.trans (congrArg some zero)))
        rw [if_pos target]
        exact follows_own known onLinks result loopback nonzero target
      · rw [if_neg target]
        exact iff_of_true (follows_foreign known onLinks result broadcast target) loopback

/-- The address (1, 1) and two links. -/
def twoLinks : System where
  sysid := 1
  compid := 1
  getMsgEntry msgid := if msgid = 76 then some ⟨3, 30, 31⟩ else none
  links := {0, 1}
  noRouteMask := ∅

/-- A `COMMAND_LONG`, with space on every channel. -/
def commandLong (channel : Channel) (sysid targetSystem targetComponent : UInt8) : Reception where
  channel := channel
  msg := ⟨76, sysid, 190, 33, fun i =>
    if i = 30 then targetSystem else if i = 31 then targetComponent else 0⟩
  txspace _ := 512
  overhead _ := 12

/-- A command to all is processed and forwarded to system 2. -/
theorem follows_rules_broadcast :
    FollowsRules twoLinks (commandLong 0 255 0 0) [commandLong 1 2 1 1] := by
  refine (follows_rules_iff twoLinks [commandLong 1 2 1 1] (commandLong 0 255 0 0)
    (by decide) (by decide) ⟨by decide, by decide, by decide, by decide⟩ (by decide)).mpr ?_
  have heard : Heard twoLinks ([commandLong 1 2 1 1] ++ [commandLong 0 255 0 0]) 1 :=
    ⟨2, 190, by decide, by decide, by decide⟩
  refine .inr ⟨by decide, ?_, .inl (.inr rfl)⟩
  rintro link ⟨member, other⟩
  obtain rfl : link = 1 := by
    revert link
    decide
  exact heard

/-- A command to component 190 of all systems is forwarded and not processed. -/
theorem broadcast_not_processed :
    ¬ FollowsRules twoLinks (commandLong 0 255 0 190) [commandLong 1 2 1 1] := by
  intro follows
  have ignored : ¬ (twoLinks.checkAndForward (twoLinks.routesAfter [commandLong 1 2 1 1])
      (commandLong 0 255 0 190)).processLocally = true := by decide +kernel
  exact ignored (follows.processLocally.mpr (.inr (.inl rfl)))

end Tm4cPilot.Mavlink
