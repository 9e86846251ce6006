import Tm4cPilot.Lib.Run

/-!
# The ST24 decoder

`st24_decode` collects a packet in `_rxpacket`.  A write outside of `st24_data` is part of the reply
and has no effect here.
-/

namespace Tm4cPilot.RcSerial.St24

def dataLenMax : ℕ := 64

def stx1 : UInt8 := 0x55
def stx2 : UInt8 := 0x55

/-- The states of the decoder. -/
inductive DecodeState where
  | unsynced | gotStx1 | gotStx2 | gotLen | gotType | gotData
  deriving DecidableEq

/-- The static variables, with `_rxpacket`. -/
structure Decoder where
  decodeState : DecodeState
  rxlen : UInt8
  length : UInt8
  type : UInt8
  data : Vector UInt8 dataLenMax

/-- What a packet stores through the pointers. -/
structure Channels where
  rssi : UInt8
  rxCount : UInt8
  channelCount : ℕ
  /-- The writes to `channels`. -/
  writes : List (ℕ × ℕ)

/-- The result, with the writes that the byte makes. -/
structure Reply where
  ret : ℕ
  /-- The index of a write to `st24_data`. -/
  dataWrite : Option ℤ := none
  channels : Option Channels := none

/-- One bit of `st24_common_crc8`. -/
def crcBit (crc : UInt8) (bit : Bool) : UInt8 :=
  let shifted := if crc &&& 0x80 ≠ 0 then crc <<< 1 ^^^ 0x07 else crc <<< 1
  if bit then shifted ^^^ 0x07 else shifted

def commonCrc8 (bytes : List UInt8) : UInt8 :=
  bytes.foldl (fun crc byte =>
    [7, 6, 5, 4, 3, 2, 1, 0].foldl (fun crc i => crcBit crc (byte.toNat.testBit i)) crc) 0

/-- `(uint16_t)(value * ST24_SCALE_FACTOR + .5f) + ST24_SCALE_OFFSET`. -/
def scale (value : ℕ) : ℕ := (value * 125 + 256) / 512 + 999

/-- The loop over `stride_count`: two channels from three bytes. -/
def strides (channel : ℕ → ℕ) (strideCount : ℕ) : List (ℕ × ℕ) :=
  (List.range ((strideCount + 2) / 3)).flatMap fun k =>
    [(2 * k, scale (channel (3 * k) * 16 + channel (3 * k + 1) / 16)),
      (2 * k + 1, scale (channel (3 * k + 2) + channel (3 * k + 1) % 16 * 256))]

/-- `*channel_count`, for a packet with `most` channels. -/
def channelCount (maxChanCount : UInt16) (most : ℕ) : ℕ :=
  if maxChanCount.toNat < most then maxChanCount.toNat else most

namespace Decoder

variable (d : Decoder)

/-- `ChannelData12` and `ChannelData24`. -/
def channelData (channelCount : ℕ) : Channels where
  rssi := d.data[2]
  rxCount := d.data[3]
  channelCount := channelCount
  writes := strides (fun i => (d.data.toList.getD (4 + i) 0).toNat) (channelCount * 3 / 2)

/-- The memory from `_rxpacket.length` on. -/
def packet : List UInt8 := d.length :: d.type :: d.data.toList

/-- The checksum is right. -/
def crcMatches (byte : UInt8) : Bool := commonCrc8 (d.packet.take (d.rxlen + 1).toNat) == byte

/-- What is done with a packet. -/
def complete (maxChanCount : UInt16) (byte : UInt8) : Reply :=
  if d.crcMatches byte then
    if d.type = 0 then
      { ret := 0, channels := some (d.channelData (channelCount maxChanCount 12)) }
    else if d.type = 1 then
      { ret := 0, channels := some (d.channelData (channelCount maxChanCount 24)) }
    else { ret := 2 }
  else { ret := 4 }

def decode (maxChanCount : UInt16) (byte : UInt8) : Reply × Decoder :=
  match d.decodeState with
  | .unsynced =>
    if byte = stx1 then ({ ret := 1 }, { d with decodeState := .gotStx1 }) else ({ ret := 3 }, d)
  | .gotStx1 =>
    ({ ret := 1 }, { d with decodeState := if byte = stx2 then .gotStx2 else .unsynced })
  | .gotStx2 =>
    if byte.toNat ≤ 1 + 1 + dataLenMax then
      ({ ret := 1 }, { d with length := byte, rxlen := 0, decodeState := .gotLen })
    else ({ ret := 1 }, { d with decodeState := .unsynced })
  | .gotLen =>
    ({ ret := 1 }, { d with type := byte, rxlen := d.rxlen + 1, decodeState := .gotType })
  | .gotType =>
    ({ ret := 1, dataWrite := some ((d.rxlen.toNat : ℤ) - 1) },
      { d with
        data := if d.rxlen = 0 then d.data else d.data.setIfInBounds (d.rxlen.toNat - 1) byte
        rxlen := d.rxlen + 1
        decodeState := if ((d.rxlen + 1).toNat : ℤ) = d.length.toNat - 1 then .gotData else .gotType })
  | .gotData =>
    (d.complete maxChanCount byte, { d with rxlen := d.rxlen + 1, decodeState := .unsynced })

end Decoder

/-! ## Memory safety -/

/-- The writes are inside the arrays. -/
def Reply.InBounds (maxChanCount : UInt16) (r : Reply) : Prop :=
  (∀ i ∈ r.dataWrite, 0 ≤ i ∧ i < dataLenMax) ∧
    ∀ c ∈ r.channels, ∀ w ∈ c.writes, w.1 < maxChanCount.toNat
deriving Decidable

/-- A length is at least three, and a number of channels even. -/
def Regular (maxChanCount : UInt16) (d : Decoder) (byte : UInt8) : Prop :=
  (d.decodeState = .gotStx2 → 3 ≤ byte.toNat) ∧
    (d.decodeState = .gotData → d.crcMatches byte → d.type ≤ 1 →
      channelCount maxChanCount (if d.type = 0 then 12 else 24) % 2 = 0)

variable {maxChanCount : UInt16} {d : Decoder} {byte : UInt8}

/-- While data is collected, `_rxlen` is below the length. -/
def Decoder.Sound (d : Decoder) : Prop :=
  (d.decodeState = .gotLen → d.rxlen = 0 ∧ 3 ≤ d.length.toNat ∧ d.length.toNat ≤ 66) ∧
    (d.decodeState = .gotType →
      1 ≤ d.rxlen.toNat ∧ d.rxlen.toNat + 1 < d.length.toNat ∧ d.length.toNat ≤ 66)

theorem Decoder.Sound.decode (h : d.Sound) (hregular : Regular maxChanCount d byte) :
    (d.decode maxChanCount byte).2.Sound := by
  obtain ⟨state, rxlen, length, type, data⟩ := d
  obtain ⟨hlen, htype⟩ := h
  cases state <;> simp only [Decoder.decode]
  case gotStx2 =>
    have hlow := hregular.1 rfl
    split
    · next hfits => exact ⟨fun _ => ⟨rfl, hlow, hfits⟩, nofun⟩
    · exact ⟨nofun, nofun⟩
  case gotLen =>
    obtain ⟨hzero, hlow, hhigh⟩ := hlen rfl
    subst hzero
    exact ⟨nofun, fun _ => ⟨le_refl 1, hlow, hhigh⟩⟩
  case gotType =>
    obtain ⟨hpos, hlt, hhigh⟩ := htype rfl
    dsimp only at hpos hlt hhigh
    have hnext : (rxlen + 1).toNat = rxlen.toNat + 1 := by
      rw [UInt8.toNat_add]
      exact Nat.mod_eq_of_lt (by change _ + 1 < 256; omega)
    split
    · exact ⟨nofun, nofun⟩
    · refine ⟨nofun, fun _ => ?_⟩
      dsimp only
      omega
  case gotStx1 => split <;> exact ⟨nofun, nofun⟩
  case unsynced => split <;> exact ⟨nofun, nofun⟩
  case gotData => exact ⟨nofun, nofun⟩

theorem Decoder.channelData_inBounds {most : ℕ} (heven : channelCount maxChanCount most % 2 = 0) :
    ∀ w ∈ (d.channelData (channelCount maxChanCount most)).writes, w.1 < maxChanCount.toNat := by
  have hle : channelCount maxChanCount most ≤ maxChanCount.toNat := by
    rw [channelCount]
    split <;> omega
  generalize channelCount maxChanCount most = count at heven hle ⊢
  intro w hw
  simp only [channelData, strides, List.mem_flatMap, List.mem_range, List.mem_cons,
    List.not_mem_nil, or_false] at hw
  obtain ⟨k, hk, rfl | rfl⟩ := hw <;> dsimp only <;> omega

theorem Decoder.Sound.inBounds (h : d.Sound) (hregular : Regular maxChanCount d byte) :
    (d.decode maxChanCount byte).1.InBounds maxChanCount := by
  obtain ⟨state, rxlen, length, type, data⟩ := d
  cases state <;> simp only [Decoder.decode]
  case gotType =>
    obtain ⟨hpos, hlt, hhigh⟩ := h.2 rfl
    refine ⟨?_, nofun⟩
    rintro _ ⟨⟩
    dsimp only [dataLenMax] at hpos hlt hhigh ⊢
    omega
  case gotData =>
    have heven := hregular.2 rfl
    dsimp only at heven
    rw [Decoder.complete]
    split_ifs with hcrc h12 h24
    · obtain rfl : type = 0 := h12
      refine ⟨nofun, ?_⟩
      rintro _ ⟨⟩
      exact channelData_inBounds (heven hcrc (by decide))
    · obtain rfl : type = 1 := h24
      refine ⟨nofun, ?_⟩
      rintro _ ⟨⟩
      exact channelData_inBounds (heven hcrc (by decide))
    all_goals exact ⟨nofun, nofun⟩
  case unsynced => split <;> exact ⟨nofun, nofun⟩
  case gotStx2 => split <;> exact ⟨nofun, nofun⟩
  case gotStx1 => exact ⟨nofun, nofun⟩
  case gotLen => exact ⟨nofun, nofun⟩

/-- **The decoder is memory safe** if no length below three comes and every channel count is even.
-/
theorem writes_inBounds (hsync : d.decodeState = .unsynced) (bytes : List UInt8)
    (h : Run.Along (fun d byte => (Decoder.decode d maxChanCount byte).2) (Regular maxChanCount) d
      bytes) :
    Run.Along (fun d byte => (Decoder.decode d maxChanCount byte).2)
      (fun d byte => (d.decode maxChanCount byte).1.InBounds maxChanCount) d bytes := by
  refine h.of_invariant (I := Decoder.Sound) (fun d byte hregular h => h.decode hregular)
    (fun d byte hregular h => h.inBounds hregular) ⟨?_, ?_⟩ <;> simp [hsync]

/-- The decoder at its start. -/
def Decoder.initial : Decoder := ⟨.unsynced, 0, 0, 0, Vector.replicate dataLenMax 0⟩

/-- A correct packet of type 0 with one byte of data, for a caller that takes eight channels. -/
theorem shortest_packet_inBounds :
    Run.Along (fun d byte => (Decoder.decode d 8 byte).2)
      (fun d byte => (d.decode 8 byte).1.InBounds 8) Decoder.initial [0x55, 0x55, 3, 0, 0, 189] :=
  writes_inBounds rfl _ (by unfold Regular; decide +kernel)

/-- A length of zero, and a correct packet for a caller that takes one channel. -/
theorem writes_outOfBounds :
    (¬ Run.Along (fun d byte => (Decoder.decode d 8 byte).2)
      (fun d byte => (d.decode 8 byte).1.InBounds 8) Decoder.initial
      ([0x55, 0x55, 0, 0] ++ List.replicate 65 0)) ∧
    ¬ Run.Along (fun d byte => (Decoder.decode d 1 byte).2)
      (fun d byte => (d.decode 1 byte).1.InBounds 1) Decoder.initial
      [0x55, 0x55, 3, 0, 0, 189] := by
  decide +kernel

end Tm4cPilot.RcSerial.St24
