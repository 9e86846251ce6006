import Tm4cPilot.Lib.Run

/-!
# The u-blox frame parser

`AP_GPS_UBLOX::read` takes the bytes at the port through a machine of nine states, and calls
`_parse_gps` for a frame with the right checksum.  What this does is left open, but that it never
assigns `_step`.
-/

namespace Tm4cPilot.Gps

open Run Nat UInt8

/-- `sizeof(_buffer)`: `UBLOX_MAX_RXM_RAWX_SATS` entries behind a head. -/
def bufferSize : ℕ := 16 + 32 * 32

def preamble1 : UInt8 := 0xb5
def preamble2 : UInt8 := 0x62

/-- The registers of the parser apart from `_step`. -/
structure Regs where
  msgClass : UInt8
  msgId : UInt8
  payloadLength : UInt16
  payloadCounter : UInt16
  ckA : UInt8
  ckB : UInt8
  buffer : Vector UInt8 bufferSize

/-- The calls of `_parse_gps`: the result and the registers. -/
abbrev ParseGps := ℕ → Regs → Bool × Regs

/-- The state of the parser. -/
structure Parser where
  step : ℕ
  regs : Regs
  calls : ℕ

namespace Regs

/-- `_ck_b += (_ck_a += data)`. -/
def check (r : Regs) (data : UInt8) : Regs :=
  { r with ckA := r.ckA + data, ckB := r.ckB + (r.ckA + data) }

/-- `_buffer[_payload_counter] = data`, within the buffer. -/
def store (r : Regs) (data : UInt8) : Regs :=
  { r with buffer := r.buffer.setIfInBounds r.payloadCounter.toNat data }

end Regs

namespace Parser

/-- `case 0`, also after a failed match of the states 1, 5 and 7. -/
def seek (p : Parser) (data : UInt8) : Parser :=
  { p with step := if preamble1 = data then 1 else 0 }

/-- One byte. The reply is the call of `_parse_gps`. -/
def feed (parseGps : ParseGps) (p : Parser) (data : UInt8) : Option (Regs × Bool) × Parser :=
  match p.step with
  | 0 => (none, p.seek data)
  | 1 => if preamble2 = data then (none, { p with step := 2 }) else (none, p.seek data)
  | 2 =>
    (none, { p with
      step := 3
      regs := { p.regs with msgClass := data, ckA := data, ckB := data } })
  | 3 => (none, { p with step := 4, regs := { p.regs.check data with msgId := data } })
  | 4 =>
    (none, { p with step := 5, regs := { p.regs.check data with payloadLength := data.toUInt16 } })
  | 5 =>
    let length := p.regs.payloadLength + (data.toUInt16 <<< 8)
    if bufferSize < length.toNat then
      (none, seek { p with regs := { p.regs.check data with payloadLength := 0 } } data)
    else
      (none, { p with
        step := 6
        regs := { p.regs.check data with payloadLength := length, payloadCounter := 0 } })
  | 6 =>
    let stored := (p.regs.check data).store data
    let counter := stored.payloadCounter + 1
    (none, { p with
      step := if counter = stored.payloadLength then 7 else 6
      regs := { stored with payloadCounter := counter } })
  | 7 => if p.regs.ckA = data then (none, { p with step := 8 }) else (none, p.seek data)
  | 8 =>
    if p.regs.ckB = data then
      let (parsed, left) := parseGps p.calls p.regs
      (some (p.regs, parsed), { step := 0, regs := left, calls := p.calls + 1 })
    else (none, { p with step := 0 })
  | _ => (none, p)

/-- Byte after byte. -/
def eat (parseGps : ParseGps) (p : Parser) (bytes : List UInt8) : Parser :=
  run (fun p data => (p.feed parseGps data).2) p bytes

end Parser

/-- The parser with its port. -/
structure Driver where
  parser : Parser
  /-- The bytes that have arrived and have not been read. -/
  port : List UInt8
  /-- What each byte that has been read led to. -/
  log : List (Option (Regs × Bool))

namespace Driver

/-- The driver at its start. -/
def fresh (regs : Regs) : Driver := ⟨⟨0, regs, 0⟩, [], []⟩

/-- `int16_t numc = port->available()`. -/
def numc (available : ℕ) : ℤ := (BitVec.ofNat 16 available).toInt

/-- `AP_GPS_UBLOX::read`, without the messages it sends. -/
def read (parseGps : ParseGps) (d : Driver) : Bool × Driver :=
  -- the loop makes no round if `numc` is negative
  let bytes := d.port.take (numc d.port.length).toNat
  let replies := replies (Parser.feed parseGps) d.parser bytes
  (replies.any fun reply => reply.any Prod.snd,
    { parser := d.parser.eat parseGps bytes
      port := d.port.drop (numc d.port.length).toNat
      log := d.log ++ replies })

/-- Bytes come to the port. -/
def arrive (d : Driver) (chunk : List UInt8) : Driver := { d with port := d.port ++ chunk }

/-- A chunk arrives, and `read` is called. -/
def deliver (parseGps : ParseGps) (d : Driver) (chunk : List UInt8) : Driver :=
  (read parseGps (d.arrive chunk)).2

end Driver

/-- The checksum with one more byte. -/
def fletcher (ck : UInt8 × UInt8) (data : UInt8) : UInt8 × UInt8 :=
  (ck.1 + data, ck.2 + (ck.1 + data))

/-- A frame of the receiver. -/
structure Frame where
  msgClass : UInt8
  msgId : UInt8
  payload : List UInt8
  nonempty : 1 ≤ payload.length
  fits : payload.length ≤ bufferSize

namespace Frame

variable (f : Frame)

/-- The class, the number and the length. -/
def header : List UInt8 :=
  [f.msgClass, f.msgId, UInt8.ofNat f.payload.length, UInt8.ofNat (f.payload.length / 256)]

/-- The checksum of the frame. -/
def checksum : UInt8 × UInt8 := (f.header ++ f.payload).foldl fletcher (0, 0)

/-- The frame as it is sent. -/
def bytes : List UInt8 :=
  [preamble1, preamble2] ++ f.header ++ f.payload ++ [f.checksum.1, f.checksum.2]

/-- What `_parse_gps` sees of the frame. -/
def view : UInt8 × UInt8 × ℕ × List UInt8 :=
  (f.msgClass, f.msgId, f.payload.length, f.payload)

/-- The calls that the frame should make. -/
def calls : List (Option (UInt8 × UInt8 × ℕ × List UInt8)) :=
  List.replicate (f.payload.length + 7) none ++ [some f.view]

end Frame

/-- What `_parse_gps` reads. -/
def Regs.view (r : Regs) : UInt8 × UInt8 × ℕ × List UInt8 :=
  (r.msgClass, r.msgId, r.payloadLength.toNat, r.buffer.toList.take r.payloadLength.toNat)

/-- The calls of `_parse_gps` byte by byte. -/
def Driver.seen (d : Driver) : List (Option (UInt8 × UInt8 × ℕ × List UInt8)) :=
  d.log.map (Option.map fun call => call.1.view)

/-! ## One frame -/

variable (parseGps : ParseGps)

namespace Parser

/-- The calls that these bytes make. -/
def seen (p : Parser) (bytes : List UInt8) : List (Option (UInt8 × UInt8 × ℕ × List UInt8)) :=
  (replies (feed parseGps) p bytes).map (Option.map fun call => call.1.view)

theorem seen_append (p : Parser) (xs ys : List UInt8) :
    p.seen parseGps (xs ++ ys) = p.seen parseGps xs ++ (p.eat parseGps xs).seen parseGps ys := by
  rw [seen, replies_append, List.map_append]
  rfl

theorem eat_append (p : Parser) (xs ys : List UInt8) :
    p.eat parseGps (xs ++ ys) = (p.eat parseGps xs).eat parseGps ys :=
  run_append _ p xs ys

/-- The next byte is one of the payload. -/
structure Collects (f : Frame) (k : ℕ) (p : Parser) : Prop where
  step : p.step = if k = f.payload.length then 7 else 6
  msgClass : p.regs.msgClass = f.msgClass
  msgId : p.regs.msgId = f.msgId
  payloadLength : p.regs.payloadLength.toNat = f.payload.length
  payloadCounter : p.regs.payloadCounter.toNat = k
  checksum : (p.regs.ckA, p.regs.ckB) = (f.header ++ f.payload.take k).foldl fletcher (0, 0)
  buffer : p.regs.buffer.toList.take k = f.payload.take k

end Parser

theorem Frame.length_le (f : Frame) : f.payload.length ≤ 1040 := f.fits

theorem Frame.toNat_length (f : Frame) :
    ((UInt8.ofNat f.payload.length).toUInt16 +
      (UInt8.ofNat (f.payload.length / 256)).toUInt16 <<< 8).toNat = f.payload.length := by
  have fits := f.length_le
  simp [shiftLeft_eq]
  omega

namespace Parser

theorem feed_header (regs : Regs) (calls : ℕ) (msgClass msgId : UInt8) {lo hi : UInt8}
    (hfits : ¬ bufferSize < (lo.toUInt16 + hi.toUInt16 <<< 8).toNat) :
    let p : Parser := ⟨0, regs, calls⟩
    let bytes := [preamble1, preamble2, msgClass, msgId, lo, hi]
    let ck := [msgId, lo, hi].foldl fletcher (msgClass, msgClass)
    let length := lo.toUInt16 + hi.toUInt16 <<< 8
    replies (feed parseGps) p bytes = List.replicate 6 none ∧
      p.eat parseGps bytes =
        ⟨6, ⟨msgClass, msgId, length, 0, ck.1, ck.2, regs.buffer⟩, calls⟩ := by
  simp only [replies, eat, run_cons, run_nil, feed, seek, Regs.check, reduceIte,
    if_neg hfits, List.foldl_cons, List.foldl_nil, fletcher]
  exact ⟨rfl, trivial⟩

variable {p : Parser}

theorem eat_header (f : Frame) (hstep : p.step = 0) :
    p.seen parseGps ([preamble1, preamble2] ++ f.header) = List.replicate 6 none ∧
      Collects f 0 (p.eat parseGps ([preamble1, preamble2] ++ f.header)) := by
  obtain ⟨step, regs, calls⟩ := p
  subst hstep
  have hlength := f.toNat_length
  have hfits : ¬ bufferSize < f.payload.length := not_lt.mpr f.fits
  obtain ⟨hreplies, heat⟩ :=
    feed_header parseGps regs calls f.msgClass f.msgId (hlength ▸ hfits)
  have hbytes : [preamble1, preamble2] ++ f.header = [preamble1, preamble2, f.msgClass, f.msgId,
    UInt8.ofNat f.payload.length, UInt8.ofNat (f.payload.length / 256)] := rfl
  have hpayload := f.nonempty
  rw [hbytes, seen, hreplies, heat]
  refine ⟨by simp, ?_, rfl, rfl, hlength, rfl, ?_, rfl⟩
  · rw [if_neg (by omega)]
  · simp [Frame.header, fletcher]

variable {f : Frame}

theorem Collects.feed {k : ℕ} (h : Collects f k p) (hk : k < f.payload.length) :
    (p.feed parseGps f.payload[k]).1 = none ∧
      Collects f (k + 1) (p.feed parseGps f.payload[k]).2 := by
  obtain ⟨step, regs, calls⟩ := p
  obtain ⟨hstep, hclass, hid, hlength, hcounter, hck, hbuffer⟩ := h
  rw [if_neg hk.ne] at hstep
  have hfits := f.length_le
  have hnext : (regs.payloadCounter + 1).toNat = k + 1 := by
    rw [UInt16.toNat_add, hcounter]
    exact mod_eq_of_lt (by change k + 1 < 65536; omega)
  have hlast : regs.payloadCounter + 1 = regs.payloadLength ↔ k + 1 = f.payload.length := by
    rw [← UInt16.toNat_inj, hnext, hlength]
  subst hstep
  refine ⟨rfl, ?_, hclass, hid, hlength, hnext, ?_, ?_⟩
  · exact if_congr hlast rfl rfl
  · rw [List.take_succ_eq_append_getElem hk, ← List.append_assoc, List.foldl_append, ← hck]
    rfl
  · change (regs.buffer.setIfInBounds regs.payloadCounter.toNat
      f.payload[k]).toList.take (k + 1) = _
    have hroom : k < regs.buffer.toList.length := by
      rw [Vector.length_toList]
      exact hk.trans_le f.fits
    rw [hcounter, Vector.toList_setIfInBounds,
      List.take_succ_eq_append_getElem (by simpa using hroom), List.getElem_set_self,
      List.take_set_of_le (le_refl k), hbuffer, List.take_succ_eq_append_getElem hk]

theorem Collects.eat_drop {k : ℕ} (h : Collects f k p) (hk : k ≤ f.payload.length) :
    p.seen parseGps (f.payload.drop k) = List.replicate (f.payload.length - k) none ∧
      Collects f f.payload.length (p.eat parseGps (f.payload.drop k)) := by
  induction hn : f.payload.length - k generalizing k p with
  | zero =>
    obtain rfl : k = f.payload.length := by omega
    rw [List.drop_length]
    exact ⟨rfl, h⟩
  | succ n ih =>
    have hlt : k < f.payload.length := by omega
    obtain ⟨hnone, hnext⟩ := h.feed parseGps hlt
    obtain ⟨hseen, hend⟩ := ih hnext (by omega) (by omega)
    rw [List.drop_eq_getElem_cons hlt]
    refine ⟨?_, hend⟩
    rw [List.replicate_succ, ← hseen, seen, replies, List.map_cons, hnone]
    rfl

theorem Collects.eat_checksum (h : Collects f f.payload.length p) :
    p.seen parseGps [f.checksum.1, f.checksum.2] = [none, some f.view] ∧
      (p.eat parseGps [f.checksum.1, f.checksum.2]).step = 0 := by
  obtain ⟨step, regs, calls⟩ := p
  obtain ⟨hstep, hclass, hid, hlength, -, hck, hbuffer⟩ := h
  subst hstep
  rw [List.take_length] at hck hbuffer
  have hsum : f.checksum = (regs.ckA, regs.ckB) := hck.symm
  have hview : regs.view = f.view := by
    rw [Regs.view, hclass, hid, hlength, hbuffer]
    rfl
  rw [hsum]
  simp only [seen, eat, replies, run_cons, run_nil, Parser.feed, reduceIte,
    List.map_cons, List.map_nil, Option.map_none, Option.map_some, hview, and_self]

theorem eat_frame (f : Frame) (hstep : p.step = 0) :
    p.seen parseGps f.bytes = f.calls ∧ (p.eat parseGps f.bytes).step = 0 := by
  obtain ⟨hhead, hcollects⟩ := eat_header parseGps f hstep
  obtain ⟨hpayload, hcollected⟩ := hcollects.eat_drop parseGps (zero_le _)
  obtain ⟨hcall, hend⟩ := hcollected.eat_checksum parseGps
  rw [List.drop_zero] at hpayload hcall hend
  constructor
  · rw [Frame.bytes, seen_append, seen_append, hhead, hpayload, eat_append, hcall, Frame.calls,
      List.replicate_append_replicate, Nat.sub_zero, Nat.add_comm 6,
      show [none, some f.view] = List.replicate 1 none ++ [some f.view] from rfl,
      ← List.append_assoc, List.replicate_append_replicate]
  · rw [Frame.bytes, eat_append, eat_append]
    exact hend

theorem seen_frames (frames : List Frame) (hstep : p.step = 0) :
    p.seen parseGps (frames.flatMap Frame.bytes) = frames.flatMap Frame.calls := by
  induction frames generalizing p with
  | nil => rfl
  | cons f frames ih =>
    obtain ⟨hseen, hend⟩ := eat_frame parseGps f hstep
    rw [List.flatMap_cons, List.flatMap_cons, seen_append, hseen, ih hend]

end Parser

/-! ## Reads -/

namespace Driver

theorem numc_of_lt {available : ℕ} (h : available < 32768) :
    (numc available).toNat = available := by
  rw [numc, BitVec.toInt_eq_toNat_cond, BitVec.toNat_ofNat]
  split <;> omega

theorem numc_add_le {available : ℕ} (h : 32768 ≤ available) :
    (numc available).toNat + 32768 ≤ available := by
  rw [numc, BitVec.toInt_eq_toNat_cond, BitVec.toNat_ofNat]
  split <;> omega

/-- What has been read and what waits has arrived. -/
structure After (regs : Regs) (arrived consumed : List UInt8) (d : Driver) : Prop where
  arrived : consumed ++ d.port = arrived
  parser : d.parser = Parser.eat parseGps ⟨0, regs, 0⟩ consumed
  log : d.log = replies (Parser.feed parseGps) ⟨0, regs, 0⟩ consumed

variable {regs : Regs} {arrived consumed : List UInt8} {d : Driver}

section

variable (h : After parseGps regs arrived consumed d)
include h

theorem After.read :
    After parseGps regs arrived (consumed ++ d.port.take (numc d.port.length).toNat)
      (d.read parseGps).2 := by
  obtain ⟨harrived, hparser, hlog⟩ := h
  refine ⟨?_, ?_, ?_⟩
  · rw [Driver.read, List.append_assoc, List.take_append_drop, harrived]
  · rw [Driver.read, Parser.eat_append, ← hparser]
  · rw [Driver.read, replies_append, ← hlog, hparser, Parser.eat]

theorem After.arrive (chunk : List UInt8) :
    After parseGps regs (arrived ++ chunk) consumed (d.arrive chunk) where
  arrived := by rw [Driver.arrive, ← List.append_assoc, h.arrived]
  parser := h.parser
  log := h.log

theorem After.run (chunks : List (List UInt8)) :
    ∃ consumed, After parseGps regs (arrived ++ chunks.flatten) consumed
      (run (deliver parseGps) d chunks) := by
  induction chunks generalizing arrived consumed d with
  | nil => exact ⟨consumed, by rwa [List.flatten_nil, List.append_nil]⟩
  | cons chunk chunks ih =>
    rw [List.flatten_cons, ← List.append_assoc]
    exact ih (h.arrive parseGps chunk).read

end

theorem port_deliver (d : Driver) (chunk : List UInt8) :
    (d.deliver parseGps chunk).port =
      (d.port ++ chunk).drop (numc (d.port ++ chunk).length).toNat := rfl

theorem le_length_port_run (h : 32768 ≤ d.port.length) (chunks : List (List UInt8)) :
    32768 ≤ (run (deliver parseGps) d chunks).port.length := by
  refine run_invariant (I := fun d : Driver => 32768 ≤ d.port.length) ?_ h chunks
  intro d chunk hd
  have hall : 32768 ≤ (d.port ++ chunk).length := by
    rw [List.length_append]
    omega
  have hleft := numc_add_le hall
  rw [port_deliver, List.length_drop]
  omega

theorem port_run_eq_nil_iff (h : d.port = []) (chunks : List (List UInt8)) :
    (run (deliver parseGps) d chunks).port = [] ↔ ∀ chunk ∈ chunks, chunk.length < 32768 := by
  induction chunks generalizing d with
  | nil => simpa using h
  | cons chunk chunks ih =>
    have hport := port_deliver parseGps d chunk
    rw [h, List.nil_append] at hport
    rw [run_cons, List.forall_mem_cons]
    by_cases hchunk : chunk.length < 32768
    · rw [numc_of_lt hchunk, List.drop_length] at hport
      rw [ih hport, and_iff_right hchunk]
    · have hleft := numc_add_le (not_lt.mp hchunk)
      have hstays := le_length_port_run parseGps (d := d.deliver parseGps chunk)
        (by rw [hport, List.length_drop]; omega) chunks
      refine iff_of_false (fun hnil => ?_) (fun hall => hchunk hall.1)
      rw [hnil, List.length_nil] at hstays
      omega

end Driver

theorem Parser.length_seen (p : Parser) (bytes : List UInt8) :
    (p.seen parseGps bytes).length = bytes.length := by
  rw [seen, List.length_map, length_replies]

/-- **Frames are never missed.** Each frame is handed to `_parse_gps` once, at its last byte,
exactly if no chunk has more bytes than an `int16_t` can count. -/
theorem frames_parsed_iff (regs : Regs) (frames : List Frame) (chunks : List (List UInt8))
    (rest : List UInt8) (stream : chunks.flatten ++ rest = frames.flatMap Frame.bytes) :
    (run (Driver.deliver parseGps) (Driver.fresh regs) chunks).seen =
        (frames.flatMap Frame.calls).take chunks.flatten.length ↔
      ∀ chunk ∈ chunks, chunk.length < 32768 := by
  have hstart : Driver.After parseGps regs [] [] (Driver.fresh regs) := ⟨rfl, rfl, rfl⟩
  obtain ⟨consumed, harrived, -, hlog⟩ := hstart.run parseGps chunks
  rw [List.nil_append] at harrived
  rw [← Driver.port_run_eq_nil_iff parseGps (d := Driver.fresh regs) rfl,
    ← Parser.seen_frames parseGps frames (p := ⟨0, regs, 0⟩) rfl, ← stream, Driver.seen, hlog]
  have hseen : (Parser.seen parseGps ⟨0, regs, 0⟩ (chunks.flatten ++ rest)).take
      chunks.flatten.length = Parser.seen parseGps ⟨0, regs, 0⟩ chunks.flatten := by
    rw [Parser.seen, ← List.map_take, ← replies_eq_take, Parser.seen]
  rw [hseen]
  constructor
  · intro heq
    have hlength := congrArg List.length heq
    rw [Parser.length_seen, List.length_map, length_replies, ← harrived, List.length_append]
      at hlength
    exact List.eq_nil_of_length_eq_zero (by omega)
  · intro hnil
    rw [hnil, List.append_nil] at harrived
    rw [harrived]
    rfl

def Regs.cleared : Regs := ⟨0, 0, 0, 0, 0, 0, Vector.replicate bufferSize 0⟩

/-- An acknowledgement, cut twice. -/
theorem acknowledgement_parsed :
    (run (Driver.deliver fun _ regs => (true, regs)) (Driver.fresh Regs.cleared)
        [[0xb5, 0x62, 5, 1], [2, 0, 6], [1, 15, 56]]).seen =
      List.replicate 9 none ++ [some (5, 1, 2, [6, 1])] :=
  (frames_parsed_iff _ Regs.cleared [⟨5, 1, [6, 1], by decide, by decide⟩] _ [] (by decide)).mpr
    (by decide)

theorem Driver.seen_of_length_eq (regs : Regs) {chunk : List UInt8} (h : chunk.length = 32768) :
    (run (Driver.deliver parseGps) (Driver.fresh regs) [chunk]).seen = [] := by
  have hnone : (numc chunk.length).toNat = 0 := by
    rw [h]
    decide
  simp [Driver.seen, Driver.deliver, Driver.read, Driver.arrive, Driver.fresh, hnone, replies]

theorem Frame.length_bytes (f : Frame) : f.bytes.length = f.payload.length + 8 := by
  simp [Frame.bytes, Frame.header]

/-- A frame of zeros. -/
def Frame.zeros (n : ℕ) (h : 1 ≤ n ∧ n ≤ bufferSize) : Frame where
  msgClass := 1
  msgId := 7
  payload := List.replicate n 0
  nonempty := by rw [List.length_replicate]; exact h.1
  fits := by rw [List.length_replicate]; exact h.2

/-- 32768 bytes wait at the port: `numc` is negative, and none of the 32 frames is parsed. -/
theorem full_port_missed :
    let frame := Frame.zeros 1016 (by decide)
    let chunk := (List.replicate 32 frame).flatMap Frame.bytes
    chunk.length = 32768 ∧
      (run (Driver.deliver fun _ regs => (true, regs)) (Driver.fresh Regs.cleared)
        [chunk]).seen = [] ∧
      some frame.view ∈ (List.replicate 32 frame).flatMap Frame.calls := by
  intro frame chunk
  have hlength : chunk.length = 32768 := by
    have hpayload : frame.payload.length = 1016 := List.length_replicate
    rw [List.length_flatMap, List.map_replicate, List.sum_replicate, Frame.length_bytes, hpayload,
      smul_eq_mul]
  refine ⟨hlength, Driver.seen_of_length_eq _ _ hlength, ?_⟩
  refine List.mem_flatMap.mpr ⟨frame, List.mem_replicate.mpr ⟨by decide, rfl⟩, ?_⟩
  exact List.mem_append_right _ (List.mem_singleton_self _)

/-! ## Resynchronisation -/

namespace Parser

/-- After one of the bytes the parser looks for a preamble. -/
def Resyncs (p : Parser) (bytes : List UInt8) : Prop :=
  ∃ k, 1 ≤ k ∧ k ≤ bytes.length ∧ (p.eat parseGps (bytes.take k)).step ≤ 1

/-- The byte does not complete a length field of zero. -/
def LengthNonzero (p : Parser) (data : UInt8) : Prop :=
  p.step = 5 → p.regs.payloadLength + data.toUInt16 <<< 8 ≠ 0
deriving Decidable

/-- The counters are within the frame. -/
structure Bounded (p : Parser) : Prop where
  step_le : p.step ≤ 8
  counter_lt : p.step = 6 → p.regs.payloadCounter.toNat < p.regs.payloadLength.toNat
  length_le : p.step = 6 → p.regs.payloadLength.toNat ≤ bufferSize

/-- The bytes before a preamble is looked for again. -/
def togo (p : Parser) : ℕ :=
  match p.step with
  | 0 => 1
  | 6 => p.regs.payloadLength.toNat - p.regs.payloadCounter.toNat + 2
  | 7 => 2
  | 8 => 1
  | step => bufferSize + 8 - step

/-- A byte brings the end of the frame nearer. -/
def Approaches (p p' : Parser) : Prop := p'.Bounded ∧ (p'.step ≤ 1 ∨ p'.togo < p.togo)

variable {p : Parser}

theorem Bounded.togo_bounds (h : p.Bounded) : 0 < p.togo ∧ p.togo ≤ bufferSize + 8 := by
  obtain ⟨hstep, -, hlength⟩ := h
  unfold togo
  split
  case h_2 hpayload =>
    omega
  all_goals unfold bufferSize; omega

theorem approaches_seek (p q : Parser) (data : UInt8) : p.Approaches (q.seek data) := by
  have hstep : (q.seek data).step ≤ 1 := by
    rw [seek]
    dsimp only
    split <;> omega
  exact ⟨⟨by omega, fun h => by omega, fun h => by omega⟩, .inl hstep⟩

theorem approaches_of_ne {p' : Parser} (hstep : p'.step ≤ 8) (hne : p'.step ≠ 6)
    (h : p'.step ≤ 1 ∨ p'.togo < p.togo) : p.Approaches p' :=
  ⟨⟨hstep, fun h => absurd h hne, fun h => absurd h hne⟩, h⟩

theorem approaches_length {regs : Regs} {calls : ℕ} {data : UInt8}
    (h : LengthNonzero ⟨5, regs, calls⟩ data) :
    Approaches ⟨5, regs, calls⟩ (feed parseGps ⟨5, regs, calls⟩ data).2 := by
  have hpos := UInt16.toNat_inj.not.mpr (h rfl)
  simp only [feed]
  split
  · exact approaches_seek _ _ _
  · next hfits =>
    refine ⟨⟨by simp, fun _ => pos_of_ne_zero hpos, fun _ => not_lt.mp hfits⟩, .inr ?_⟩
    change (regs.payloadLength + data.toUInt16 <<< 8).toNat - 0 + 2 < 1040 + 3
    exact Nat.lt_succ_of_le (Nat.add_le_add_right (Nat.not_lt.mp hfits) 2)

theorem approaches_payload {regs : Regs} {calls : ℕ} (h : Bounded ⟨6, regs, calls⟩) (data : UInt8) :
    Approaches ⟨6, regs, calls⟩ (feed parseGps ⟨6, regs, calls⟩ data).2 := by
  have hcount := h.counter_lt rfl
  have hle := h.length_le rfl
  dsimp only at hcount hle
  have hnext : (regs.payloadCounter + 1).toNat = regs.payloadCounter.toNat + 1 := by
    rw [UInt16.toNat_add]
    exact mod_eq_of_lt (by change _ + 1 < 65536; unfold bufferSize at hle; omega)
  have hfeed : (feed parseGps ⟨6, regs, calls⟩ data).2 =
      ⟨if regs.payloadCounter + 1 = regs.payloadLength then 7 else 6,
        { (regs.check data).store data with payloadCounter := regs.payloadCounter + 1 }, calls⟩ := rfl
  rw [hfeed]
  split
  · refine approaches_of_ne (by simp) (by simp) (.inr ?_)
    change 2 < regs.payloadLength.toNat - regs.payloadCounter.toNat + 2
    omega
  · next hmore =>
    rw [← UInt16.toNat_inj, hnext] at hmore
    refine ⟨⟨by simp, fun _ => ?_, fun _ => hle⟩, .inr ?_⟩
    · change (regs.payloadCounter + 1).toNat < regs.payloadLength.toNat
      omega
    · change regs.payloadLength.toNat - (regs.payloadCounter + 1).toNat + 2 <
        regs.payloadLength.toNat - regs.payloadCounter.toNat + 2
      omega

theorem Bounded.feed (h : p.Bounded) {data : UInt8} (hlength : p.LengthNonzero data) :
    p.Approaches (p.feed parseGps data).2 := by
  obtain ⟨step, regs, calls⟩ := p
  have hstep : step ≤ 8 := h.step_le
  interval_cases step
  case «0» => exact approaches_seek _ _ _
  case «1» =>
    simp only [Parser.feed]
    split
    · exact approaches_of_ne (by simp) (by simp) (.inr (by simp [togo, bufferSize]))
    · exact approaches_seek _ _ _
  case «5» => exact approaches_length parseGps hlength
  case «6» => exact approaches_payload parseGps h data
  case «7» =>
    simp only [Parser.feed]
    split
    · exact approaches_of_ne (by simp) (by simp) (.inr (by simp [togo]))
    · exact approaches_seek _ _ _
  case «8» =>
    simp only [Parser.feed]
    split <;> exact approaches_of_ne (by simp) (by simp) (.inl (by simp))
  all_goals
    simp only [Parser.feed]
    exact approaches_of_ne (by simp) (by simp) (.inr (by simp [togo, bufferSize]))

theorem Bounded.resyncs (h : p.Bounded) {bytes : List UInt8}
    (hlength : Run.Along (fun p data => (p.feed parseGps data).2) LengthNonzero p bytes)
    (hle : p.togo ≤ bytes.length) : p.Resyncs parseGps bytes := by
  induction bytes generalizing p with
  | nil => exact absurd h.togo_bounds.1 (not_lt.mpr hle)
  | cons data bytes ih =>
    obtain ⟨hbounded, hdone | hless⟩ := h.feed parseGps hlength.1
    · exact ⟨1, le_rfl, succ_pos _, hdone⟩
    · rw [List.length_cons] at hle
      obtain ⟨k, -, hk, hstep⟩ := ih hbounded hlength.2 (by omega)
      exact ⟨k + 1, succ_pos _, succ_le_succ hk, hstep⟩

end Parser

/-- **The parser resynchronises.** Without a length of zero it looks for a preamble after one of any
`sizeof(_buffer) + 10` bytes. -/
theorem resyncs_of_length_nonzero (regs : Regs) (past further : List UInt8)
    (hlength : Run.Along (fun p data => (Parser.feed parseGps p data).2) Parser.LengthNonzero
      ⟨0, regs, 0⟩ (past ++ further))
    (hfurther : further.length = bufferSize + 10) :
    (Parser.eat parseGps ⟨0, regs, 0⟩ past).Resyncs parseGps further := by
  obtain ⟨hpast, hrest⟩ := along_append.mp hlength
  have hstart : Parser.Bounded ⟨0, regs, 0⟩ := ⟨by simp, nofun, nofun⟩
  have hbounded := hpast.invariant (I := Parser.Bounded) (fun p data hok h => (h.feed parseGps hok).1)
    hstart
  exact hbounded.resyncs parseGps hrest (hbounded.togo_bounds.2.trans (by omega))

theorem resyncs_in_noise :
    (Parser.eat (fun _ regs => (true, regs)) ⟨0, Regs.cleared, 0⟩ [181, 98]).Resyncs
      (fun _ regs => (true, regs)) (List.replicate (bufferSize + 10) 3) :=
  resyncs_of_length_nonzero _ Regs.cleared [181, 98] _ (by decide +kernel) List.length_replicate

theorem Parser.step_eat_of_length_zero {p : Parser} (hstep : p.step = 6)
    (hlength : p.regs.payloadLength = 0) {bytes : List UInt8}
    (hroom : p.regs.payloadCounter.toNat + bytes.length < 65536) :
    (p.eat parseGps bytes).step = 6 := by
  induction bytes generalizing p with
  | nil => exact hstep
  | cons data bytes ih =>
    obtain ⟨step, regs, calls⟩ := p
    subst hstep
    rw [List.length_cons] at hroom
    have hnext : (regs.payloadCounter + 1).toNat = regs.payloadCounter.toNat + 1 := by
      rw [UInt16.toNat_add]
      exact mod_eq_of_lt (by change _ + 1 < 65536; dsimp only at hroom; omega)
    have hmore : regs.payloadCounter + 1 ≠ regs.payloadLength := fun h => by
      rw [h, hlength] at hnext
      exact succ_ne_zero _ hnext.symm
    refine ih (p := (Parser.feed parseGps ⟨6, regs, calls⟩ data).2) (if_neg hmore) hlength ?_
    change (regs.payloadCounter + 1).toNat + bytes.length < 65536
    dsimp only at hroom
    omega

/-- A length of zero swallows 65536 bytes: the counter is compared after it has been counted up. -/
theorem zero_length_swallows :
    ¬ (Parser.eat (fun _ regs => (true, regs)) ⟨0, Regs.cleared, 0⟩
      [preamble1, preamble2, 1, 7, 0, 0]).Resyncs (fun _ regs => (true, regs))
        (List.replicate (bufferSize + 10) 0) := by
  rintro ⟨k, -, hk, hstep⟩
  rw [Parser.step_eat_of_length_zero _ rfl rfl] at hstep
  · exact absurd hstep (by decide)
  · change 0 + _ < 65536
    rw [List.length_take, List.length_replicate]
    unfold bufferSize at hk ⊢
    omega

end Tm4cPilot.Gps
