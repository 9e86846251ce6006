import Tm4cPilot.RcSerial.Sumd

/-!
# The SRXL decoder

`srxl_decode` looks for a header after a pause.  It notes the time of a byte at its end, which it
does not reach for a byte that it rejects.
-/

namespace Tm4cPilot.RcSerial.Srxl

open List Function

/-- `SRXL_MIN_FRAMESPACE_US`. -/
def minFramespaceUs : UInt64 := 8000

def headerV1 : UInt8 := 0xA1
def headerV2 : UInt8 := 0xA2
def headerV5 : UInt8 := 0xA5
def headerNotImpl : UInt8 := 0xFF

/-- The states of the decoder. -/
inductive DecodeState where
  | idle | new | collect
  deriving DecidableEq

/-- The static variables. -/
structure Decoder where
  buffer : ℕ → UInt8
  buflen : UInt8
  lastDataUs : UInt64
  frameHeader : UInt8
  frameLenFull : UInt8
  decodeState : DecodeState
  decodeStateNext : DecodeState
  crcFmu : UInt16
  crcReceiver : UInt16

/-- The decoder at its start. -/
def Decoder.initial : Decoder where
  buffer := fun _ => 0
  buflen := 0
  lastDataUs := 0
  frameHeader := 0
  frameLenFull := 0
  decodeState := .idle
  decodeStateNext := .idle
  crcFmu := 0
  crcReceiver := 0

/-- What `srxl_decode` returns. -/
inductive Reply where
  | accumulating | unknown | checksumError
  /-- What `srxl_channels_get_v1v2` or `srxl_channels_get_v5` returns. -/
  | channels
  deriving DecidableEq

def srxlCrc16 : UInt16 → UInt8 → UInt16 := Sumd.sumdCrc16

/-- The length that a header announces. -/
def framelen (byte : UInt8) : Option UInt8 :=
  if byte = headerV1 then some 27
  else if byte = headerV2 then some 35
  else if byte = headerV5 then some 18
  else none

/-- A byte with its time. -/
structure Byte where
  timestampUs : UInt64
  byte : UInt8

namespace Decoder

variable (d : Decoder) (x : Byte)

/-- There was a pause, as far as the decoder knows. -/
def Paused : Prop := minFramespaceUs ≤ x.timestampUs - d.lastDataUs
deriving Decidable

/-- The detection of a header, unless the function returns there. -/
def detect : Option Decoder :=
  if d.Paused x then
    (framelen x.byte).map fun length =>
      { d with frameLenFull := length, frameHeader := x.byte, decodeState := .new }
  else some d

/-- The header is not known. -/
def reject : Decoder :=
  { d with frameLenFull := 0, frameHeader := headerNotImpl, decodeState := .idle, buflen := 0 }

/-- The end of `srxl_decode`. -/
def finish (next : DecodeState) : Decoder :=
  { d with decodeStateNext := next, decodeState := next, lastDataUs := x.timestampUs }

/-- The byte is stored. -/
def append : Decoder :=
  let buflen := d.buflen + 1
  { d with
    buffer := update d.buffer d.buflen.toNat x.byte
    buflen
    crcFmu :=
      if buflen.toNat + 2 ≤ d.frameLenFull.toNat then srxlCrc16 d.crcFmu x.byte else d.crcFmu }

/-- The second `switch`. -/
def collect : Reply × Decoder :=
  match d.decodeState with
  | .new =>
    (.accumulating, { d with
      buffer := update d.buffer 0 x.byte
      crcFmu := srxlCrc16 0 x.byte
      buflen := 1 }.finish x .collect)
  | .collect =>
    if d.frameLenFull ≤ d.buflen then (.unknown, d.reject)
    else
      let d := d.append x
      if d.buflen = d.frameLenFull then
        let high := (d.buffer (d.buflen.toNat - 2)).toUInt16
        let crcReceiver := high <<< 8 ||| (d.buffer (d.buflen.toNat - 1)).toUInt16
        let reply :=
          if crcReceiver ≠ d.crcFmu then .checksumError
          else if (framelen d.frameHeader).isSome then .channels else .unknown
        (reply, { d with crcReceiver }.finish x .idle)
      else (.accumulating, d.finish x .collect)
  | .idle => (.accumulating, d.finish x d.decodeStateNext)

def srxlDecode : Reply × Decoder :=
  match d.detect x with
  | none => (.unknown, d.reject)
  | some d => d.collect x

/-- The byte is taken as the header of a new frame. -/
def StartsFrame : Prop := ∃ d' ∈ d.detect x, d'.decodeState = .new

/-- A byte after a pause is a header. -/
def Framed : Prop := d.Paused x → (framelen x.byte).isSome
deriving Decidable

end Decoder

open Decoder

/-- The decoder after a stream. -/
def after (bytes : List Byte) : Decoder := Run.run (fun d x => (d.srxlDecode x).2) initial bytes

/-! ## The time of the last byte -/

/-- The fields between two bytes. -/
structure Sound (d : Decoder) : Prop where
  next : d.decodeStateNext = d.decodeState
  settled : d.decodeState ≠ .new
  room : d.decodeState = .collect → d.buflen < d.frameLenFull

variable {d : Decoder} {x : Byte}

theorem one_lt_framelen {byte length : UInt8} (h : framelen byte = some length) : 1 < length := by
  unfold framelen at h
  split_ifs at h <;> cases h <;> decide

theorem append_lt (room : d.buflen < d.frameLenFull)
    (more : (d.append x).buflen ≠ (d.append x).frameLenFull) :
    (d.append x).buflen < (d.append x).frameLenFull := by
  change d.buflen + 1 ≠ d.frameLenFull at more
  change d.buflen + 1 < d.frameLenFull
  have bound := d.frameLenFull.toNat_lt
  rw [UInt8.lt_iff_toNat_lt] at room ⊢
  rw [ne_eq, ← UInt8.toNat_inj] at more
  have sum : (d.buflen + 1).toNat = d.buflen.toNat + 1 :=
    Nat.mod_eq_of_lt (by change d.buflen.toNat + 1 < 256; omega)
  omega

theorem collect_sound (next : d.decodeState = .idle → d.decodeStateNext = .idle)
    (first : d.decodeState = .new → 1 < d.frameLenFull)
    (room : d.decodeState = .collect → d.buflen < d.frameLenFull) :
    Sound (d.collect x).2 ∧ (d.collect x).2.lastDataUs = x.timestampUs := by
  unfold Decoder.collect
  split
  · next isNew => exact ⟨⟨rfl, nofun, fun _ => first isNew⟩, rfl⟩
  · next isCollect =>
    rw [if_neg (UInt8.not_le.mpr (room isCollect))]
    dsimp only
    split
    · exact ⟨⟨rfl, nofun, nofun⟩, rfl⟩
    · next complete => exact ⟨⟨rfl, nofun, fun _ => append_lt (room isCollect) complete⟩, rfl⟩
  · next isIdle =>
    rw [next isIdle]
    exact ⟨⟨rfl, nofun, nofun⟩, rfl⟩

/-- After a framed byte its time is kept. -/
theorem Sound.srxlDecode (sound : Sound d) (framed : d.Framed x) :
    Sound (d.srxlDecode x).2 ∧ (d.srxlDecode x).2.lastDataUs = x.timestampUs := by
  unfold Decoder.srxlDecode detect
  split_ifs with paused
  · obtain ⟨length, known⟩ := Option.isSome_iff_exists.mp (framed paused)
    rw [known]
    exact collect_sound nofun (fun _ => one_lt_framelen known) nofun
  · exact collect_sound (fun isIdle => sound.next.trans isIdle)
      (fun isNew => absurd isNew sound.settled) sound.room

/-- A frame starts only after a pause. -/
theorem Sound.paused (sound : Sound d) (starts : d.StartsFrame x) : d.Paused x := by
  obtain ⟨d', detected, isNew⟩ := starts
  by_contra quiet
  rw [detect, if_neg quiet] at detected
  cases detected
  exact sound.settled isNew

/-- **SRXL frames start only after silence**, if the bytes that the decoder sees after a pause are
headers. -/
theorem silence_before_frame (bytes : List Byte)
    (ordered : bytes.Pairwise fun x y => x.timestampUs ≤ y.timestampUs)
    (framed : Run.Along (fun d x => (d.srxlDecode x).2) Framed initial bytes)
    (xs ys : List Byte) (x y : Byte) (split : bytes = xs ++ x :: y :: ys)
    (starts : (after (xs ++ [x])).StartsFrame y) :
    minFramespaceUs.toNat ≤ y.timestampUs.toNat - x.timestampUs.toNat := by
  subst split
  obtain ⟨before, framed⟩ := Run.along_append.mp framed
  have sound : Sound (after xs) := before.invariant (I := Sound)
    (fun d x framed sound => (sound.srxlDecode framed).1) ⟨rfl, nofun, nofun⟩
  obtain ⟨sound, noted⟩ := sound.srxlDecode (Run.along_cons.mp framed).1
  have last : after (xs ++ [x]) = ((after xs).srxlDecode x).2 := Run.run_append ..
  rw [last] at starts
  have paused := sound.paused starts
  rw [Paused, noted, UInt64.le_iff_toNat_le] at paused
  have le : x.timestampUs ≤ y.timestampUs := by
    have tail := (pairwise_append.mp ordered).2.1
    exact (pairwise_cons.mp tail).1 y mem_cons_self
  rwa [UInt64.toNat_sub_of_le _ _ le] at paused

theorem silence_before_second_byte :
    (after [⟨0, 0⟩]).StartsFrame ⟨8000, headerV1⟩ ∧
      minFramespaceUs.toNat ≤ (8000 : UInt64).toNat - (0 : UInt64).toNat := by
  have starts : (after [⟨0, 0⟩]).StartsFrame ⟨8000, headerV1⟩ := ⟨_, rfl, rfl⟩
  exact ⟨starts, silence_before_frame [⟨0, 0⟩, ⟨8000, headerV1⟩] (by simp)
    ⟨by decide, by decide, trivial⟩ [] [] _ _ rfl starts⟩

/-- A byte that is no header comes after a pause, and a header one microsecond later. -/
theorem frame_without_silence :
    (after [⟨8000, 0⟩]).StartsFrame ⟨8001, headerV1⟩ ∧
      ¬ minFramespaceUs.toNat ≤ (8001 : UInt64).toNat - (8000 : UInt64).toNat :=
  ⟨⟨_, rfl, rfl⟩, by decide⟩

end Tm4cPilot.RcSerial.Srxl
