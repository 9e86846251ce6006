import Tm4cPilot.Lib.Run

/-!
# The SUMD decoder

`sumd_decode` collects a frame in `_rxpacket`, where `crc16_high` lies right behind `sumd_data`.
-/

namespace Tm4cPilot.RcSerial.Sumd

open List Function Run UInt8

def maxChannels : ℕ := 32

/-- `sizeof(_rxpacket.sumd_data)`. -/
def dataSize : ℕ := maxChannels * 2

def headerId : UInt8 := 0xA8
def idSumh : UInt8 := 0x00
def idSumd : UInt8 := 0x01

/-- The states of the decoder. -/
inductive DecodeState where
  | unsynced | gotHeader | gotState | gotLen | gotData | gotCrc | gotCrc16Byte1 | gotCrc16Byte2
  deriving DecidableEq

/-- The static variables, with `cells` from `sumd_data` on, and what the pointers point to. -/
structure Decoder where
  decodeState : DecodeState
  sumd : Bool
  crcOk : Bool
  crc16 : UInt16
  crc8 : UInt8
  rxlen : UInt8
  length : UInt8
  cells : ℕ → UInt8
  rxCount : UInt8
  rssi : UInt8

/-- The decoder at its start. -/
def Decoder.initial : Decoder where
  decodeState := .unsynced
  sumd := true
  crcOk := false
  crc16 := 0
  crc8 := 0
  rxlen := 0
  length := 0
  cells := fun _ => 0
  rxCount := 0
  rssi := 0

/-- The result, with the accesses to `sumd_data`. -/
structure Reply where
  ret : ℕ
  /-- The indices of the accesses to `sumd_data`. -/
  accesses : List ℕ := []
  /-- `*channel_count` and the writes to `channels`. -/
  channels : Option (ℕ × List (ℕ × ℕ)) := none

def sumdCrc16 (crc : UInt16) (value : UInt8) : UInt16 :=
  (range 8).foldl
    (fun crc _ => if crc &&& 0x8000 ≠ 0 then crc <<< 1 ^^^ 0x1021 else crc <<< 1)
    (crc ^^^ value.toUInt16 <<< 8)

/-- The channels in order, with those they are read from. -/
def order (length : ℕ) : List (ℕ × ℕ) :=
  [(0, 1), (1, 2), (2, 0), (3, 3)] ++ (range' 4 (length - 4)).map fun i => (i, i)

namespace Decoder

variable (d : Decoder)

/-- The checksums with one more byte. -/
def check (byte : UInt8) : Decoder :=
  if d.sumd then { d with crc16 := sumdCrc16 d.crc16 byte } else { d with crc8 := d.crc8 + byte }

/-- A byte is stored. -/
def store (index : ℕ) (byte : UInt8) : Decoder :=
  { d with cells := Function.update d.cells index byte }

/-- A channel of the frame. -/
def value (i : ℕ) : ℕ :=
  ((d.cells (i * 2 + 1)).toNat * 256 + (d.cells (i * 2 + 2)).toNat) / 8

/-- The end of a frame, once the checksum has been compared. -/
def complete (maxChanCount : UInt16) : Reply × Decoder :=
  if d.crcOk then
    let length := if maxChanCount.toNat < d.length.toNat then maxChanCount.toUInt8 else d.length
    let channels := order length.toNat
    ({ ret := 0
       accesses := channels.flatMap fun c => [c.2 * 2 + 1, c.2 * 2 + 2]
       channels := some (length.toNat, channels.map fun c => (c.1, d.value c.2)) },
      { d with length, rxCount := d.rxCount + 1, rssi := 100, decodeState := .unsynced })
  else ({ ret := 4 }, { d with decodeState := .unsynced })

def decode (maxChanCount : UInt16) (byte : UInt8) : Reply × Decoder :=
  match d.decodeState with
  | .unsynced =>
    if byte = headerId then
      ({ ret := 1 }, { d with
        sumd := true, rxlen := 0, crc16 := sumdCrc16 0 byte, crc8 := 0 + byte, crcOk := false
        decodeState := .gotHeader })
    else ({ ret := 3 }, d)
  | .gotHeader =>
    if byte = idSumd ∨ byte = idSumh then
      let d := if byte = idSumh then { d with sumd := false } else d
      ({ ret := 1 }, { d.check byte with decodeState := .gotState })
    else ({ ret := 1 }, { d with decodeState := .unsynced })
  | .gotState =>
    if 2 ≤ byte.toNat ∧ byte.toNat ≤ maxChannels then
      ({ ret := 1 },
        { d.check byte with length := byte, rxlen := d.rxlen + 1, decodeState := .gotLen })
    else ({ ret := 1 }, { d with decodeState := .unsynced })
  | .gotLen =>
    ({ ret := 1, accesses := [d.rxlen.toNat] }, { (d.check byte).store d.rxlen.toNat byte with
      rxlen := d.rxlen + 1
      decodeState :=
        if (d.rxlen + 1).toNat ≤ d.length.toNat * 2 then .gotLen else .gotData })
  | .gotData =>
    ({ ret := 1 }, { d.store dataSize byte with
      decodeState := if d.sumd then .gotCrc else .gotCrc16Byte1 })
  | .gotCrc16Byte1 =>
    ({ ret := 1 }, { d.store (dataSize + 1) byte with decodeState := .gotCrc16Byte2 })
  | .gotCrc16Byte2 => ({ ret := 1 }, { d.store (dataSize + 2) byte with decodeState := .gotCrc })
  | .gotCrc =>
    let d := d.store (if d.sumd then dataSize + 1 else dataSize + 3) byte
    let same :=
      if d.sumd then d.crc16.toNat = (d.cells dataSize).toNat * 256 + byte.toNat else d.crc8 = byte
    { d with crcOk := d.crcOk || same }.complete maxChanCount

end Decoder

/-! ## Frames -/

/-- A frame of a receiver. -/
structure Frame where
  n : ℕ
  data : List UInt8
  four : 4 ≤ n
  most : n ≤ maxChannels
  length : data.length = 2 * n

namespace Frame

variable (f : Frame)

def head : List UInt8 := [headerId, idSumd, UInt8.ofNat f.n]

def crc : UInt16 := (f.head ++ f.data).foldl sumdCrc16 0

/-- The frame as it is sent. -/
def bytes : List UInt8 := f.head ++ f.data ++ [(f.crc >>> 8).toUInt8, f.crc.toUInt8]

/-- A frame of zeros. -/
def zeros (n : ℕ) (four : 4 ≤ n) (most : n ≤ maxChannels) : Frame :=
  ⟨n, replicate (2 * n) 0, four, most, length_replicate⟩

/-- The value of a channel. -/
def value (i : ℕ) : ℕ := (f.data.getD (2 * i) 0).toNat * 256 + (f.data.getD (2 * i + 1) 0).toNat

end Frame

/-- The bytes of a frame are decoded. -/
def feed (maxChanCount : UInt16) (d : Decoder) (f : Frame) : Decoder :=
  run (fun d byte => (d.decode maxChanCount byte).2) d f.bytes

/-- The frame is returned, with no access out of bounds. -/
def Returned (maxChanCount : UInt16) (d : Decoder) (f : Frame) : Prop :=
  ∃ before last, replies (·.decode maxChanCount) d f.bytes = before ++ [last] ∧
    last.ret = 0 ∧
    last.channels = some (f.n, (order f.n).map fun c => (c.1, f.value c.2 / 8)) ∧
    (∀ c ∈ order f.n, c.1 < maxChanCount.toNat) ∧
    ∀ r ∈ before ++ [last], ∀ i ∈ r.accesses, i < dataSize

variable {maxChanCount : UInt16} {d : Decoder} {done : List UInt8}

/-- The decoder when these data have come. -/
def Decoder.collect (d : Decoder) (done : List UInt8) : Decoder :=
  { d with
    decodeState := if done.length < d.length.toNat * 2 then .gotLen else .gotData
    rxlen := UInt8.ofNat (1 + done.length)
    crc16 := done.foldl sumdCrc16 d.crc16
    cells := fun a => if 1 ≤ a ∧ a ≤ done.length then done.getD (a - 1) 0 else d.cells a }

theorem decode_collect (sumd : d.sumd = true) (small : d.length.toNat ≤ maxChannels)
    (room : done.length < d.length.toNat * 2) (byte : UInt8) :
    (d.collect done).decode maxChanCount byte =
      ({ ret := 1, accesses := [1 + done.length] }, d.collect (done ++ [byte])) := by
  rw [maxChannels] at small
  have rxlen : (UInt8.ofNat (1 + done.length)).toNat = 1 + done.length := by
    rw [toNat_ofNat']
    omega
  have next : UInt8.ofNat (1 + done.length) + 1 = UInt8.ofNat (1 + (done.length + 1)) := by
    rw [← UInt8.toNat_inj, UInt8.toNat_add, rxlen, UInt8.toNat_ofNat']
    rfl
  have nextNat : (UInt8.ofNat (1 + (done.length + 1))).toNat = 1 + (done.length + 1) := by
    rw [toNat_ofNat']
    omega
  simp only [Decoder.collect, Decoder.decode, if_pos room, Decoder.check, sumd, if_true,
    Decoder.store, rxlen, next, nextNat, length_append, length_singleton,
    foldl_append, foldl_cons, foldl_nil]
  congr 2
  · exact if_congr (by omega) rfl rfl
  · funext a
    by_cases here : a = 1 + done.length
    · rw [here, update_self, if_pos (by omega)]
      simp
    · rw [update_of_ne here]
      by_cases inside : 1 ≤ a ∧ a ≤ done.length
      · rw [if_pos inside, if_pos (by omega), getD_eq_getElem?_getD, getD_eq_getElem?_getD,
          getElem?_append_left (by omega)]
      · rw [if_neg inside, if_neg (by omega)]

theorem run_collect (sumd : d.sumd = true) (small : d.length.toNat ≤ maxChannels)
    {rest : List UInt8} (room : done.length + rest.length ≤ d.length.toNat * 2) :
    replies (·.decode maxChanCount) (d.collect done) rest =
        (range' (1 + done.length) rest.length).map
          (fun i => { ret := 1, accesses := [i] }) ∧
      run (fun d byte => (d.decode maxChanCount byte).2) (d.collect done) rest =
        d.collect (done ++ rest) := by
  induction rest generalizing done with
  | nil => exact ⟨rfl, by rw [append_nil]; rfl⟩
  | cons byte rest ih =>
    rw [length_cons] at room
    have length : (done ++ [byte]).length = done.length + 1 := by simp
    obtain ⟨replies, final⟩ :=
      ih (show (done ++ [byte]).length + rest.length ≤ d.length.toNat * 2 by omega)
    rw [Run.replies, run_cons, decode_collect sumd small (by omega), replies, final, length,
      append_assoc, length_cons, range'_succ, map_cons]
    exact ⟨rfl, rfl⟩

/-- The decoder after the first three bytes of a frame. -/
def Frame.begun (f : Frame) (d : Decoder) : Decoder :=
  { d with
    sumd := true, crcOk := false, crc8 := 0 + headerId, length := UInt8.ofNat f.n
    crc16 := f.head.foldl sumdCrc16 0 }

theorem Frame.toNat_n (f : Frame) : (UInt8.ofNat f.n).toNat = f.n := by
  have := f.most
  rw [maxChannels] at this
  rw [toNat_ofNat']
  omega

theorem run_head (f : Frame) (unsynced : d.decodeState = .unsynced) :
    replies (·.decode maxChanCount) d f.head = replicate 3 { ret := 1 } ∧
      run (fun d byte => (d.decode maxChanCount byte).2) d f.head = (f.begun d).collect [] := by
  have four := f.four
  have most := f.most
  have room : 0 < f.n * 2 := by omega
  simp [Frame.head, replies, Decoder.decode, unsynced, Decoder.check, f.toNat_n, Frame.begun,
    Decoder.collect, idSumd, idSumh, room, most, show 2 ≤ f.n by omega]
  funext a
  rw [if_neg (by omega)]

theorem lt_of_mem_order {n : ℕ} (four : 4 ≤ n) {c : ℕ × ℕ} (mem : c ∈ order n) :
    c.1 < n ∧ c.2 < n := by
  simp only [order, mem_append, mem_cons, not_mem_nil, or_false, mem_map, mem_range'_1] at mem
  rcases mem with (rfl | rfl | rfl | rfl) | ⟨i, bounds, rfl⟩ <;> dsimp only <;> omega

theorem gotData_collect (f : Frame) : ((f.begun d).collect f.data).decodeState = .gotData := by
  have := f.length
  exact if_neg (by simp only [Frame.begun, f.toNat_n]; omega)

theorem replies_crc (f : Frame) (wide : maxChannels ≤ maxChanCount.toNat) (lt : f.n < maxChannels) :
    replies (·.decode maxChanCount) ((f.begun d).collect f.data)
        [(f.crc >>> 8).toUInt8, f.crc.toUInt8] =
      [{ ret := 1 },
        { ret := 0
          accesses := (order f.n).flatMap fun c => [c.2 * 2 + 1, c.2 * 2 + 2]
          channels := some (f.n, (order f.n).map fun c => (c.1, f.value c.2 / 8)) }] := by
  have length := f.length
  have crc : f.data.foldl sumdCrc16 (f.head.foldl sumdCrc16 0) = f.crc :=
    foldl_append.symm
  have same : f.crc.toNat = (f.crc >>> 8).toUInt8.toNat * 256 + f.crc.toUInt8.toNat := by
    have := f.crc.toNat_lt
    simp [Nat.shiftRight_eq_div_pow]
    omega
  have values (c : ℕ × ℕ) (mem : c ∈ order f.n) (d' : Decoder)
      (cells : ∀ a < dataSize, d'.cells a = ((f.begun d).collect f.data).cells a) :
      d'.value c.2 = f.value c.2 / 8 := by
    have index := (lt_of_mem_order f.four mem).2
    rw [maxChannels] at lt
    rw [Decoder.value, Frame.value, cells _ (by simp [dataSize, maxChannels]; omega),
      cells _ (by simp [dataSize, maxChannels]; omega)]
    simp only [Decoder.collect]
    rw [if_pos (by omega), if_pos (by omega), show c.2 * 2 + 1 - 1 = 2 * c.2 by omega,
      show c.2 * 2 + 2 - 1 = 2 * c.2 + 1 by omega]
  have whole : ¬ maxChanCount.toNat < f.n := by omega
  simp only [replies, Decoder.decode, gotData_collect]
  simp only [Decoder.store, Decoder.collect, Frame.begun, crc, if_true, update_self,
    update_of_ne (show dataSize ≠ dataSize + 1 by decide), ← same, decide_true,
    Bool.or_true, Decoder.complete, f.toNat_n, if_neg whole]
  simp only [cons.injEq, Reply.mk.injEq, Option.some.injEq, Prod.mk.injEq, true_and, and_true]
  refine map_congr_left fun c mem => congrArg _ (values c mem _ fun a inside => ?_)
  have first : a ≠ dataSize := by omega
  have second : a ≠ dataSize + 1 := by omega
  simp only [update_of_ne first, update_of_ne second]
  rfl

/-- The replies to the head and the data, where the data go to the indices from 1 on. -/
theorem replies_body (f : Frame) (unsynced : d.decodeState = .unsynced) :
    replies (·.decode maxChanCount) d (f.head ++ f.data) =
        replicate 3 { ret := 1 } ++
          (range' 1 (2 * f.n)).map (fun i => { ret := 1, accesses := [i] }) ∧
      run (fun d byte => (d.decode maxChanCount byte).2) d (f.head ++ f.data) =
        (f.begun d).collect f.data := by
  obtain ⟨replies, final⟩ := @run_head maxChanCount d f unsynced
  have length : (f.begun d).length.toNat = f.n := f.toNat_n
  obtain ⟨replies', final'⟩ := @run_collect maxChanCount (f.begun d) [] rfl (length ▸ f.most) f.data
    (by rw [length, f.length, length_nil]; omega)
  rw [replies_append, run_append, replies, final, replies', final', f.length]
  exact ⟨rfl, rfl⟩

theorem unsynced_feed (f : Frame) (unsynced : d.decodeState = .unsynced) :
    (feed maxChanCount d f).decodeState = .unsynced := by
  rw [feed, Frame.bytes, run_append, (replies_body f unsynced).2]
  simp only [run_cons, run_nil, Decoder.decode, gotData_collect]
  simp only [Decoder.store, Decoder.collect, Frame.begun, if_true, Decoder.complete]
  split_ifs <;> rfl

theorem returned_iff (wide : maxChannels ≤ maxChanCount.toNat)
    (unsynced : d.decodeState = .unsynced) (f : Frame) :
    Returned maxChanCount d f ↔ f.n < maxChannels := by
  have four := f.four
  rw [Returned, Frame.bytes, replies_append, (replies_body f unsynced).1,
    (replies_body f unsynced).2]
  constructor
  · rintro ⟨before, last, replies, -, -, -, inside⟩
    rw [← replies] at inside
    -- The last byte of the data is stored at the index `2 * n`.
    have := inside { ret := 1, accesses := [2 * f.n] }
      (mem_append_left _ (mem_append_right _
        (mem_map.mpr ⟨2 * f.n, mem_range'_1.mpr (by omega), rfl⟩))) _
      mem_cons_self
    rw [dataSize] at this
    omega
  · intro lt
    rw [replies_crc f wide lt]
    refine ⟨_, _, append_cons _ _ _, rfl, rfl, fun c mem => ?_, fun r mem i access => ?_⟩
    · have := (lt_of_mem_order four mem).1
      omega
    · rw [dataSize]
      simp only [mem_append, mem_replicate, mem_map, mem_range'_1, mem_cons,
        not_mem_nil, or_false] at mem
      rcases mem with ((⟨-, rfl⟩ | ⟨j, bounds, rfl⟩) | rfl) | rfl
      · cases access
      · rw [mem_singleton.mp access]
        omega
      · cases access
      · obtain ⟨c, mem, here⟩ := mem_flatMap.mp access
        have := (lt_of_mem_order four mem).2
        simp only [mem_cons, not_mem_nil, or_false] at here
        omega

/-- Exactly the frames with a free channel are returned: with `SUMD_MAX_CHANNELS` the last byte is
stored behind `sumd_data`. -/
theorem frames_returned_iff (wide : maxChannels ≤ maxChanCount.toNat)
    (unsynced : d.decodeState = .unsynced) (frames : List Frame) :
    Run.Along (feed maxChanCount) (Returned maxChanCount) d frames ↔
      ∀ f ∈ frames, f.n < maxChannels := by
  induction frames generalizing d with
  | nil => simp
  | cons f frames ih =>
    rw [along_cons, returned_iff wide unsynced, ih (unsynced_feed f unsynced),
      forall_mem_cons]

/-- Two frames, of which the first has the values 256, 512, 768, 1024 and 1280. -/
theorem two_frames_returned :
    let f : Frame := ⟨5, [8, 0, 16, 0, 24, 0, 32, 0, 40, 0], by decide, by decide, rfl⟩
    let g : Frame := ⟨4, [40, 1, 32, 2, 24, 3, 16, 4], by decide, by decide, rfl⟩
    (order f.n).map (fun c => (c.1, f.value c.2 / 8)) =
        [(0, 512), (1, 768), (2, 256), (3, 1024), (4, 1280)] ∧
      Run.Along (feed 32) (Returned 32) .initial [f, g] :=
  ⟨by decide, (frames_returned_iff (le_refl 32) rfl _).mpr (by decide)⟩

theorem longest_frame_not_returned :
    ¬ Run.Along (feed 32) (Returned 32) .initial [Frame.zeros 32 (by decide) (by decide)] :=
  fun h => lt_irrefl 32 ((returned_iff (le_refl 32) rfl _).mp h.1)

end Tm4cPilot.RcSerial.Sumd
