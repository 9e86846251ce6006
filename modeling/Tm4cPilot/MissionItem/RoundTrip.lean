import Mathlib.Tactic
import Tm4cPilot.MissionItem.Model

/-!
# Round trips of mission items

A command that came from a packet is sent as a packet and converted again. The direction of a loiter
is the sign of its radius, which is lost when the field of the radius is zero.
-/

namespace Tm4cPilot.MissionItem

open MavCmd Content Packet UInt8

@[simp] theorem trunc_intCast (n : ℤ) : trunc n = n := by simp [trunc]

@[simp] theorem trunc_natCast (n : ℕ) : trunc n = n := by simp [trunc]

theorem trunc_of_nonneg {q : ℚ} (nonneg : 0 ≤ q) : trunc q = ⌊q⌋ := by
  rw [trunc, Int.tdiv_eq_ediv_of_nonneg (Rat.num_nonneg.2 nonneg), Rat.floor_def']

theorem trunc_neg (q : ℚ) : trunc (-q) = -trunc q := by simp [trunc]

theorem abs_trunc (q : ℚ) : |trunc q| = ⌊|q|⌋ := by
  obtain nonneg | neg := le_total 0 q
  · rw [trunc_of_nonneg nonneg, abs_of_nonneg nonneg, abs_of_nonneg (Int.floor_nonneg.2 nonneg)]
  · rw [abs_of_nonpos neg, ← trunc_of_nonneg (neg_nonneg.2 neg), trunc_neg, abs_of_nonpos]
    rw [← neg_nonneg, ← trunc_neg, trunc_of_nonneg (neg_nonneg.2 neg)]
    exact Int.floor_nonneg.2 (neg_nonneg.2 neg)

theorem uint8_ofInt_toNat (w : UInt8) : UInt8.ofInt w.toNat = w := by
  apply UInt8.toNat_inj.1
  have small := w.toNat_lt
  simp only [UInt8.ofInt, UInt8.toNat_ofNat']
  omega

theorem uint16_ofInt_toNat (w : UInt16) : UInt16.ofInt w.toNat = w := by
  apply UInt16.toNat_inj.1
  have small := w.toNat_lt
  simp only [UInt16.ofInt, UInt16.toNat_ofNat']
  omega

@[simp] theorem toUint8_toNat (w : UInt8) : toUint8 w.toNat = w := by
  rw [toUint8, trunc_natCast, uint8_ofInt_toNat]

@[simp] theorem toUint16_toNat (w : UInt16) : toUint16 w.toNat = w := by
  rw [toUint16, trunc_natCast, uint16_ofInt_toNat]

@[simp] theorem toInt8_toInt (w : Int8) : toInt8 w.toInt = w := by
  rw [toInt8, trunc_intCast, Int8.ofInt_toInt]

@[simp] theorem toInt16_toInt (w : Int16) : toInt16 w.toInt = w := by
  rw [toInt16, trunc_intCast, Int16.ofInt_toInt]

@[simp] theorem toUint16_byte (b : UInt8) : toUint16 b.toNat = b.toUInt16 := by
  rw [← toNat_toUInt16, toUint16_toNat]

@[simp] theorem bit_pos (b : Bool) : 0 < bit b ↔ b = true := by
  cases b <;> simp [bit]

theorem toNat_packed (high low : UInt16) :
    (high <<< 8 ||| (low &&& 0x00FF)).toNat = high.toNat % 2 ^ 8 * 2 ^ 8 + low.toNat % 2 ^ 8 := by
  have hlow : low.toNat &&& 0xFF = low.toNat % 2 ^ 8 := Nat.and_two_pow_sub_one_eq_mod _ 8
  have hhigh : high.toNat <<< 8 % 2 ^ 16 = 2 ^ 8 * (high.toNat % 2 ^ 8) := by
    omega
  have hshift : (high <<< 8).toNat = high.toNat <<< 8 % 2 ^ 16 := by simp
  have hmask : (low &&& 0x00FF).toNat = low.toNat &&& 0xFF := by simp
  rw [UInt16.toNat_or, hshift, hmask, hlow, hhigh,
    ← Nat.two_pow_add_eq_or_of_lt (Nat.mod_lt _ (by decide))]
  omega

theorem toNat_lowByte (w : UInt16) : (lowByte w).toNat = w.toNat % 2 ^ 8 := by simp [lowByte]

theorem toNat_highByte (w : UInt16) : (highByte w).toNat = w.toNat / 2 ^ 8 := by
  have small := w.toNat_lt
  simp only [highByte, UInt16.toNat_toUInt8, UInt16.toNat_shiftRight, Nat.shiftRight_eq_div_pow]
  simp
  omega

theorem packed_bytes (w : UInt16) :
    (highByte w).toUInt16 <<< 8 ||| ((lowByte w).toUInt16 &&& 0x00FF) = w := by
  apply UInt16.toNat_inj.1
  have small := w.toNat_lt
  rw [toNat_packed, toNat_toUInt16, toNat_toUInt16, toNat_lowByte, toNat_highByte]
  omega

theorem min_byte (b : UInt8) : min 0xFF b.toUInt16 = b.toUInt16 := by
  have small : b.toUInt16 ≤ 0xFF := by
    apply UInt16.le_iff_toNat_le.2
    have := b.toNat_lt
    simp
    omega
  change (if (0xFF : UInt16) ≤ b.toUInt16 then 0xFF else b.toUInt16) = b.toUInt16
  split_ifs with large
  · exact UInt16.le_antisymm large small
  · rfl

section Cases

variable (plane : Bool) (c : MavCmd) (packet given : Packet) (cmd : Command)

theorem toPacket_copyLocation :
    (c.toPacket plane cmd given).2 = (c.ofPacket plane packet).copyLocation := by
  cases c <;> rfl

theorem ofPacket_toPacket (h : (c.ofPacket plane packet).copyLocation = false) :
    c.ofPacket plane (c.toPacket plane ⟨cmd.index, cmd.id, (c.ofPacket plane packet).p1,
      (c.ofPacket plane packet).content⟩ given).1 = c.ofPacket plane packet := by
  cases c <;> simp_all [ofPacket, toPacket, uint8_ofInt_toNat]

theorem ofPacket_located (h : (c.ofPacket plane packet).copyLocation = true) (x y : ℤ) (z : ℚ)
    (frame : Frame) : c.ofPacket plane { packet with x := x, y := y, z := z, frame := frame } =
      c.ofPacket plane packet := by
  cases c <;> first | rfl | cases h

end Cases

/-! ## Loiter directions -/

/-- A left turn whose radius is zero in its field. -/
def DirectionLost (bits : ℕ) (radius : ℚ) : Prop := radius < 0 ∧ ⌊|radius|⌋ % 2 ^ bits = 0

/-- The commands with such a radius. -/
def MavCmd.LosesDirection (packet : Packet) : MavCmd → Prop
  | navLoiterUnlim => DirectionLost 16 packet.param3
  | navLoiterTurns => DirectionLost 8 packet.param3
  | navLoiterToAlt => DirectionLost 16 packet.param2
  | _ => False

/-- The packet it is sent as, apart from the location. -/
def MavCmd.resent (plane : Bool) (packet given : Packet) (relativeAlt terrainAlt : Bool)
    (c : MavCmd) : Packet :=
  let case := c.ofPacket plane packet
  (c.toPacket plane ⟨packet.seq, packet.command, case.p1,
    case.content.copyLocation packet relativeAlt terrainAlt⟩ given).1

theorem signed_neg (ccw : Prop) [Decidable ccw] (radius : ℕ) :
    (if ccw then -(radius : ℚ) else radius) < 0 ↔ ccw ∧ radius ≠ 0 := by
  split_ifs with h <;> simp [h, Nat.pos_iff_ne_zero]

theorem abs_signed (ccw : Prop) [Decidable ccw] (radius : ℕ) :
    |if ccw then -(radius : ℚ) else radius| = radius := by
  split_ifs <;> simp

theorem toNat_toUint16_abs (q : ℚ) : ((toUint16 |q|).toNat : ℤ) = ⌊|q|⌋ % 2 ^ 16 := by
  rw [toUint16, trunc_of_nonneg (abs_nonneg q), UInt16.ofInt, UInt16.toNat_ofNat']
  omega

theorem directionLost_iff (q : ℚ) :
    DirectionLost 16 q ↔ decide (q < 0) = true ∧ (toUint16 |q|).toNat = 0 := by
  have field := toNat_toUint16_abs q
  rw [DirectionLost, decide_eq_true_iff]
  exact and_congr_right fun _ => by omega

theorem directionLost_packed_iff (q : ℚ) (turns : UInt16) :
    DirectionLost 8 q ↔ decide (q < 0) = true ∧
      (highByte (toUint16 |q| <<< 8 ||| (turns &&& 0x00FF))).toNat = 0 := by
  have field := toNat_toUint16_abs q
  rw [DirectionLost, decide_eq_true_iff, toNat_highByte, toNat_packed]
  exact and_congr_right fun _ => by omega

section Located

variable (plane : Bool) (packet given : Packet) (relativeAlt terrainAlt : Bool) {c : MavCmd}

theorem ofPacket_resent (h : (c.ofPacket plane packet).copyLocation = true)
    (kept : ¬c.LosesDirection packet) :
    c.ofPacket plane (c.resent plane packet given relativeAlt terrainAlt) =
      c.ofPacket plane packet := by
  cases c with
  | navWaypoint =>
    cases plane
    · simp [ofPacket, resent, toPacket]
    · simp [ofPacket, resent, toPacket, min_byte, packed_bytes]
  | navLoiterUnlim =>
    rw [MavCmd.LosesDirection, directionLost_iff] at kept
    simp_all [ofPacket, resent, toPacket, copyLocation, abs_signed,
      signed_neg]
  | navLoiterTurns =>
    rw [MavCmd.LosesDirection, directionLost_packed_iff _ (toUint16 packet.param1)] at kept
    simp_all [ofPacket, resent, toPacket, copyLocation, abs_signed,
      signed_neg, packed_bytes]
  | navLoiterToAlt =>
    rw [MavCmd.LosesDirection, directionLost_iff] at kept
    simp_all [ofPacket, resent, toPacket, copyLocation, abs_signed,
      signed_neg]
  | navLoiterTime =>
    by_cases ccw : packet.param3 < 0 <;>
      simp [ofPacket, resent, toPacket, copyLocation, ccw]
  | navPayloadPlace =>
    simp [ofPacket, resent, toPacket]
  | _ => first | (cases h; done) | simp [ofPacket, resent, toPacket]

theorem loiterCcw_resent (lost : c.LosesDirection packet) :
    (c.ofPacket plane packet).content.location.loiterCcw = true ∧
      (c.ofPacket plane (c.resent plane packet given relativeAlt terrainAlt)).content.location.loiterCcw =
        false := by
  cases c with
  | navLoiterUnlim =>
    rw [MavCmd.LosesDirection, directionLost_iff] at lost
    simp_all [ofPacket, resent, toPacket, copyLocation]
  | navLoiterTurns =>
    rw [MavCmd.LosesDirection, directionLost_packed_iff _ (toUint16 packet.param1)] at lost
    simp_all [ofPacket, resent, toPacket, copyLocation]
  | navLoiterToAlt =>
    rw [MavCmd.LosesDirection, directionLost_iff] at lost
    simp_all [ofPacket, resent, toPacket, copyLocation]
  | _ => cases lost

end Located

/-! ## Locations -/

/-- The altitude flags of an accepted location. -/
structure Located (build : Build) (packet : Packet) (relativeAlt terrainAlt : Bool) : Prop where
  lat : checkLat packet.x = true
  lng : checkLng packet.y = true
  alt : |packet.z| < locationAltMaxM
  terrain : terrainAlt = true → relativeAlt = true ∧ build.terrain = true

/-- The packet with the location it had as a command. -/
def Packet.relocated (filled packet : Packet) (relativeAlt terrainAlt : Bool) : Packet :=
  { filled with
    x := packet.x
    y := packet.y
    z := toAlt (packet.z * 100) / 100
    frame :=
      if terrainAlt then .globalTerrainAlt
      else if relativeAlt then .globalRelativeAlt
      else .global }

section Location

variable {build : Build} {packet : Packet} {relativeAlt terrainAlt : Bool}

theorem checkedLocation_ok {content content' : Content}
    (h : checkedLocation build packet content = .ok content') :
    ∃ relativeAlt terrainAlt, Located build packet relativeAlt terrainAlt ∧
      content' = content.copyLocation packet relativeAlt terrainAlt := by
  unfold checkedLocation at h
  by_cases lat : checkLat packet.x = true
  swap
  · simp [lat] at h
  by_cases lng : checkLng packet.y = true
  swap
  · simp [lat, lng] at h
  by_cases alt : |packet.z| < locationAltMaxM
  swap
  · simp [lat, lng, not_lt.1 alt] at h
  simp only [lat, lng, not_le.2 alt, Bool.not_true, Bool.false_eq_true, if_false] at h
  split at h
  · exact ⟨false, false, ⟨lat, lng, alt, by simp⟩, (Except.ok.inj h).symm⟩
  · exact ⟨false, false, ⟨lat, lng, alt, by simp⟩, (Except.ok.inj h).symm⟩
  · exact ⟨true, false, ⟨lat, lng, alt, by simp⟩, (Except.ok.inj h).symm⟩
  · split_ifs at h with terrain
    exact ⟨true, true, ⟨lat, lng, alt, fun _ => ⟨rfl, terrain⟩⟩, (Except.ok.inj h).symm⟩
  · cases h

theorem location_toPacket (located : Located build packet relativeAlt terrainAlt)
    (content : Content) (filled : Packet) :
    (content.copyLocation packet relativeAlt terrainAlt).location.toPacket build filled =
      some (filled.relocated packet relativeAlt terrainAlt) := by
  cases terrainAlt with
  | false =>
    cases relativeAlt <;> simp [Location.toPacket, copyLocation, relocated]
  | true =>
    obtain ⟨rfl, terrain⟩ := located.terrain rfl
    simp [Location.toPacket, copyLocation, relocated, terrain, div_eq_mul_inv]

theorem abs_toAlt_lt (alt : |packet.z| < locationAltMaxM) :
    |((toAlt (packet.z * 100) : ℤ) : ℚ) / 100| < locationAltMaxM := by
  have bound : |packet.z * 100| < 8300000 := by
    norm_num [locationAltMaxM] at alt ⊢
    linarith
  have floor_lt : |trunc (packet.z * 100)| < 8300000 := by
    rw [abs_trunc]
    exact Int.floor_lt.2 (by exact_mod_cast bound)
  have fits : toAlt (packet.z * 100) = trunc (packet.z * 100) := by
    rw [abs_lt] at floor_lt
    apply Int.bmod_eq_of_le <;> omega
  have cast_lt : |((trunc (packet.z * 100) : ℤ) : ℚ)| < 8300000 := by exact_mod_cast floor_lt
  rw [fits, abs_div, locationAltMaxM]
  linarith

theorem toAlt_toAlt (q : ℚ) : toAlt (toAlt q : ℤ) = toAlt q := by
  rw [toAlt, trunc_intCast]
  exact Int.bmod_bmod

theorem checkedLocation_relocated (located : Located build packet relativeAlt terrainAlt)
    (content : Content) (filled : Packet) :
    checkedLocation build (filled.relocated packet relativeAlt terrainAlt) content =
      .ok (content.copyLocation packet relativeAlt terrainAlt) := by
  have alt := abs_toAlt_lt located.alt
  have same : content.copyLocation (filled.relocated packet relativeAlt terrainAlt) relativeAlt
      terrainAlt = content.copyLocation packet relativeAlt terrainAlt := by
    simp [copyLocation, relocated, toAlt_toAlt]
  rw [← same]
  cases terrainAlt with
  | false =>
    cases relativeAlt <;> simp [checkedLocation, relocated, located.lat, located.lng, alt]
  | true =>
    obtain ⟨rfl, terrain⟩ := located.terrain rfl
    simp [checkedLocation, relocated, located.lat, located.lng, alt, terrain]

end Location

/-! ## Packets and commands -/

section Accepted

variable {build : Build} {packet : Packet} {cmd : Command} {c : MavCmd}

theorem toPacket_head (plane : Bool) (cmd : Command) (given : Packet) (c : MavCmd) :
    (c.toPacket plane cmd given).1.seq = given.seq ∧
      (c.toPacket plane cmd given).1.command = given.command := by
  cases c with
  | navWaypoint => cases plane <;> exact ⟨rfl, rfl⟩
  | _ => exact ⟨rfl, rfl⟩

theorem mavlinkIntToMissionCmd_of_not_located (id : MavCmd.ofCode packet.command = some c)
    (h : (c.ofPacket build.plane packet).copyLocation = false) :
    mavlinkIntToMissionCmd build packet = .ok ⟨packet.seq, packet.command,
      (c.ofPacket build.plane packet).p1, (c.ofPacket build.plane packet).content⟩ := by
  simp [mavlinkIntToMissionCmd, id, h]

theorem mavlinkIntToMissionCmd_of_located (id : MavCmd.ofCode packet.command = some c)
    (h : (c.ofPacket build.plane packet).copyLocation = true) :
    mavlinkIntToMissionCmd build packet =
      (checkedLocation build packet (c.ofPacket build.plane packet).content).map
        (⟨packet.seq, packet.command, (c.ofPacket build.plane packet).p1, ·⟩) := by
  simp [mavlinkIntToMissionCmd, id, h]

theorem ofCode_of_accepted (h : mavlinkIntToMissionCmd build packet = .ok cmd) :
    ∃ c, MavCmd.ofCode packet.command = some c := by
  cases id : MavCmd.ofCode packet.command with
  | none => simp [mavlinkIntToMissionCmd, id] at h
  | some c => exact ⟨c, rfl⟩

end Accepted

/-- The packet sent for the command gives the same id, `p1` and content. -/
def RoundTrips (build : Build) (cmd : Command) (given : Packet) : Prop :=
  ∃ packet cmd', missionCmdToMavlinkInt build cmd given = some packet ∧
    mavlinkIntToMissionCmd build packet = .ok cmd' ∧
    cmd'.id = cmd.id ∧ cmd'.p1 = cmd.p1 ∧ cmd'.content = cmd.content

/-- The packet has such a command. -/
def LosesDirection (packet : Packet) : Prop :=
  ∃ c, MavCmd.ofCode packet.command = some c ∧ c.LosesDirection packet

variable {packet : Packet} {c : MavCmd}

theorem copyLocation_of_losesDirection (plane : Bool)
    (lost : c.LosesDirection packet) : (c.ofPacket plane packet).copyLocation = true := by
  cases c <;> first | rfl | cases lost

theorem roundTrips_of_not_located {build : Build}
    (id : MavCmd.ofCode packet.command = some c)
    (h : (c.ofPacket build.plane packet).copyLocation = false) (given : Packet) :
    RoundTrips build ⟨packet.seq, packet.command, (c.ofPacket build.plane packet).p1,
      (c.ofPacket build.plane packet).content⟩ given := by
  set cmd : Command := ⟨packet.seq, packet.command, (c.ofPacket build.plane packet).p1,
    (c.ofPacket build.plane packet).content⟩
  have same := ofPacket_toPacket build.plane c packet (given.init cmd) cmd h
  obtain ⟨-, command⟩ := toPacket_head build.plane cmd (given.init cmd) c
  have sent : missionCmdToMavlinkInt build cmd given =
      some (c.toPacket build.plane cmd (given.init cmd)).1 := by
    simp [missionCmdToMavlinkInt, cmd, id, toPacket_copyLocation build.plane c packet, h]
  refine ⟨_, _, sent, mavlinkIntToMissionCmd_of_not_located (c := c) ?_ ?_, ?_, ?_, ?_⟩
  · rw [command]
    exact id
  · exact (congrArg Case.copyLocation same).trans h
  · exact command
  · exact congrArg Case.p1 same
  · exact congrArg Case.content same

theorem resent_located {build : Build}
    (id : MavCmd.ofCode packet.command = some c)
    (h : (c.ofPacket build.plane packet).copyLocation = true) {relativeAlt terrainAlt : Bool}
    (located : Located build packet relativeAlt terrainAlt) (given : Packet) :
    let cmd : Command := ⟨packet.seq, packet.command, (c.ofPacket build.plane packet).p1,
      (c.ofPacket build.plane packet).content.copyLocation packet relativeAlt terrainAlt⟩
    let again := c.ofPacket build.plane
      (c.resent build.plane packet (given.init cmd) relativeAlt terrainAlt)
    ∃ packet', missionCmdToMavlinkInt build cmd given = some packet' ∧
      mavlinkIntToMissionCmd build packet' = .ok ⟨packet.seq, packet.command, again.p1,
        again.content.copyLocation packet relativeAlt terrainAlt⟩ := by
  intro cmd again
  set filled := c.resent build.plane packet (given.init cmd) relativeAlt terrainAlt
  have seq : filled.seq = packet.seq := (toPacket_head build.plane cmd (given.init cmd) c).1
  have command : filled.command = packet.command :=
    (toPacket_head build.plane cmd (given.init cmd) c).2
  have sent : missionCmdToMavlinkInt build cmd given =
      some (filled.relocated packet relativeAlt terrainAlt) := by
    simp only [missionCmdToMavlinkInt, cmd, id, toPacket_copyLocation build.plane c packet, h, if_true]
    exact location_toPacket located _ filled
  have copies : (c.ofPacket build.plane filled).copyLocation = true :=
    (toPacket_copyLocation build.plane c filled given cmd).symm.trans
      ((toPacket_copyLocation build.plane c packet given cmd).trans h)
  have unmoved : c.ofPacket build.plane (filled.relocated packet relativeAlt terrainAlt) = again :=
    ofPacket_located build.plane c filled copies _ _ _ _
  refine ⟨_, sent, ?_⟩
  have id' : MavCmd.ofCode (filled.relocated packet relativeAlt terrainAlt).command = some c :=
    (congrArg MavCmd.ofCode command).trans id
  rw [mavlinkIntToMissionCmd_of_located id' (by rw [unmoved]; exact copies),
    checkedLocation_relocated located, unmoved]
  simp only [Except.map, relocated, seq, command]

/-- A command makes the round trip exactly when no loiter direction is lost. -/
theorem roundTrips_iff_keeps_direction {build : Build} {packet : Packet} {cmd : Command}
    (h : mavlinkIntToMissionCmd build packet = .ok cmd) (given : Packet) :
    RoundTrips build cmd given ↔ ¬LosesDirection packet := by
  obtain ⟨c, id⟩ := ofCode_of_accepted h
  have lost_iff : LosesDirection packet ↔ c.LosesDirection packet := by
    simp [LosesDirection, id]
  rw [lost_iff]
  cases copies : (c.ofPacket build.plane packet).copyLocation with
  | false =>
    rw [mavlinkIntToMissionCmd_of_not_located id copies, Except.ok.injEq] at h
    subst h
    refine iff_of_true (roundTrips_of_not_located id copies given) fun lost => ?_
    rw [copyLocation_of_losesDirection build.plane lost] at copies
    cases copies
  | true =>
    rw [mavlinkIntToMissionCmd_of_located id copies] at h
    cases checked : checkedLocation build packet (c.ofPacket build.plane packet).content with
    | error result =>
      rw [checked] at h
      cases h
    | ok content =>
      obtain ⟨relativeAlt, terrainAlt, located, rfl⟩ := checkedLocation_ok checked
      rw [checked, Except.map, Except.ok.injEq] at h
      subst h
      obtain ⟨packet', sent, back⟩ := resent_located id copies located given
      constructor
      · rintro ⟨packet₂, cmd₂, sent₂, back₂, -, -, same⟩ lost
        obtain rfl : packet' = packet₂ := Option.some.inj (sent.symm.trans sent₂)
        obtain rfl := Except.ok.inj (back.symm.trans back₂)
        obtain ⟨ccw, notCcw⟩ := loiterCcw_resent build.plane packet _ relativeAlt terrainAlt lost
        have flag := congrArg (fun content : Content => content.location.loiterCcw) same
        cases notCcw.symm.trans (flag.trans ccw)
      · intro kept
        have same := fun given =>
          ofPacket_resent build.plane packet given relativeAlt terrainAlt copies kept
        rw [same] at back
        exact ⟨packet', _, sent, back, rfl, rfl, rfl⟩

/-- A loiter to the left. -/
def leftLoiter : Packet :=
  { (default : Packet) with
    command := 17, param3 := -60, x := 473977418, y := 85455938, z := 50, frame := .globalTerrainAlt }

/-- A loiter command. -/
def loiterCmd (p1 : UInt16) (loiterCcw : Bool) : Command :=
  ⟨0, 17, p1, { zeroed with
    location := ⟨true, loiterCcw, true, false, false, 5000, 473977418, 85455938⟩ }⟩

theorem leftLoiter_roundTrips :
    mavlinkIntToMissionCmd ⟨false, true⟩ leftLoiter = .ok (loiterCmd 60 true) ∧
      RoundTrips ⟨false, true⟩ (loiterCmd 60 true) default := by
  have h : mavlinkIntToMissionCmd ⟨false, true⟩ leftLoiter = .ok (loiterCmd 60 true) := by
    decide +kernel
  refine ⟨h, (roundTrips_iff_keeps_direction h default).2 ?_⟩
  rintro ⟨c, id, lost⟩
  obtain rfl : MavCmd.navLoiterUnlim = c := Option.some.inj id
  have zero := lost.2
  cases zero

/-- With a radius of half a metre, a left turn comes back as a right turn. -/
theorem tightLoiter_turns_right :
    mavlinkIntToMissionCmd ⟨false, true⟩ { leftLoiter with param3 := -1 / 2 } =
        .ok (loiterCmd 0 true) ∧
      ∃ packet, missionCmdToMavlinkInt ⟨false, true⟩ (loiterCmd 0 true) default = some packet ∧
        mavlinkIntToMissionCmd ⟨false, true⟩ packet = .ok (loiterCmd 0 false) :=
  ⟨by decide +kernel, { leftLoiter with param3 := 0, autocontinue := 1 }, by decide +kernel,
    by decide +kernel⟩

end Tm4cPilot.MissionItem
