import Tm4cPilot.Lib.Ring
import Tm4cPilot.Lib.Run

/-!
# RT-Thread ring buffers

The positions of a ring buffer have 15 bits and a mirror bit that changes when they wrap: equal
indices mean an empty buffer if these are equal, and a full one if not.  An access outside of the
pool fails.
-/

namespace Tm4cPilot.Rtt

open List Option Run Nat Ring Bool

/-! ## The operations -/

/-- `struct rt_ringbuffer`, with the bytes of the pool. -/
structure RingBuffer where
  poolSize : ℕ
  buffer : ℕ → UInt8
  readMirror : Bool
  readIndex : Fin (2 ^ 15)
  writeMirror : Bool
  writeIndex : Fin (2 ^ 15)
  bufferSize : ℕ

/-- `enum rt_ringbuffer_state`. -/
inductive RingBufferState where
  | empty
  | full
  | halffull
  deriving DecidableEq, Repr

/-- `RT_ALIGN_SIZE`. -/
def ringAlignSize : ℕ := 4

namespace RingBuffer

def init (pool : ℕ → UInt8) (size : ℕ) : RingBuffer where
  poolSize := size
  buffer := pool
  readMirror := false
  readIndex := 0
  writeMirror := false
  writeIndex := 0
  bufferSize := size / ringAlignSize * ringAlignSize

variable (rb : RingBuffer)

def status : RingBufferState :=
  if rb.readIndex = rb.writeIndex then
    if rb.readMirror = rb.writeMirror then .empty else .full
  else .halffull

/-- `rt_ringbuffer_data_len`, as an unsigned number. -/
def dataLen : ℕ :=
  match rb.status with
  | .empty => 0
  | .full => rb.bufferSize
  | .halffull =>
    if rb.readIndex.val < rb.writeIndex.val then rb.writeIndex.val - rb.readIndex.val
    else (rb.bufferSize + 2 ^ 32 - (rb.readIndex.val - rb.writeIndex.val)) % 2 ^ 32

/-- `rt_ringbuffer_space_len`, an unsigned number. -/
def spaceLen : ℕ := (rb.bufferSize + 2 ^ 32 - rb.dataLen) % 2 ^ 32

/-- Bytes are copied to the pool. -/
def store (start : ℕ) (bytes : List UInt8) : Option RingBuffer :=
  if start + bytes.length ≤ rb.poolSize then
    some { rb with buffer := copy rb.buffer start bytes }
  else none

/-- Bytes are copied from it. -/
def load (start length : ℕ) : Option (List UInt8) :=
  if start + length ≤ rb.poolSize then some (slice rb.buffer start length) else none

/-- The copy of a put that ends before the end of the buffer. -/
def writeHere (bytes : List UInt8) : Option RingBuffer := do
  let rb ← rb.store rb.writeIndex bytes
  return { rb with writeIndex := Fin.ofNat _ (rb.writeIndex + bytes.length) }

/-- The two copies otherwise, with a number of bytes that could be negative. -/
def writeAcross (bytes : List UInt8) : Option RingBuffer :=
  if rb.bufferSize < rb.writeIndex then none
  else do
    let first := rb.bufferSize - rb.writeIndex
    let rb ← rb.store rb.writeIndex (bytes.take first)
    let rb ← rb.store 0 (bytes.drop first)
    return { rb with
      writeMirror := !rb.writeMirror
      writeIndex := Fin.ofNat _ (bytes.length - first) }

/-- `rt_ringbuffer_put`.  It returns the number of bytes. -/
def put (bytes : List UInt8) : Option (ℕ × RingBuffer) :=
  let size := rb.spaceLen % 2 ^ 16
  if size = 0 then some (0, rb)
  else
    -- drop some data
    let bytes := bytes.take size
    if bytes.length + rb.writeIndex < rb.bufferSize then
      (rb.writeHere bytes).map fun rb => (bytes.length, rb)
    else (rb.writeAcross bytes).map fun rb => (bytes.length, rb)

def putForce (bytes : List UInt8) : Option (ℕ × RingBuffer) :=
  let spaceLength := rb.spaceLen % 2 ^ 16
  let bytes := bytes.drop (bytes.length - rb.bufferSize)
  if bytes.length + rb.writeIndex < rb.bufferSize then
    (rb.writeHere bytes).map fun rb => (bytes.length,
      if spaceLength < bytes.length then { rb with readIndex := rb.writeIndex } else rb)
  else
    (rb.writeAcross bytes).map fun rb => (bytes.length,
      if spaceLength < bytes.length then
        { rb with readMirror := !rb.readMirror, readIndex := rb.writeIndex }
      else rb)

/-- `rt_ringbuffer_get`.  It returns the bytes. -/
def get (length : ℕ) : Option (List UInt8 × RingBuffer) :=
  let size := rb.dataLen
  if size = 0 then some ([], rb)
  else
    -- less data
    let length := min length size
    if length + rb.readIndex < rb.bufferSize then do
      let bytes ← rb.load rb.readIndex length
      return (bytes, { rb with readIndex := Fin.ofNat _ (rb.readIndex + length) })
    else if rb.bufferSize < rb.readIndex then none
    else do
      let first := rb.bufferSize - rb.readIndex
      let bytes ← rb.load rb.readIndex first
      let bytes' ← rb.load 0 (length - first)
      return (bytes ++ bytes', { rb with
        readMirror := !rb.readMirror
        readIndex := Fin.ofNat _ (length - first) })

/-- The next write position. -/
def advanceWrite : RingBuffer :=
  if rb.writeIndex.val + 1 = rb.bufferSize then
    { rb with writeMirror := !rb.writeMirror, writeIndex := 0 }
  else { rb with writeIndex := Fin.ofNat _ (rb.writeIndex + 1) }

def putchar (ch : UInt8) : Option (ℕ × RingBuffer) :=
  if rb.spaceLen = 0 then some (0, rb)
  else (rb.store rb.writeIndex [ch]).map fun rb => (1, rb.advanceWrite)

def putcharForce (ch : UInt8) : Option (ℕ × RingBuffer) :=
  let oldState := rb.status
  (rb.store rb.writeIndex [ch]).map fun rb =>
    if oldState = .full then
      let readMirror :=
        if rb.writeIndex.val + 1 = rb.bufferSize then !rb.readMirror else rb.readMirror
      let rb := rb.advanceWrite
      (1, { rb with readMirror, readIndex := rb.writeIndex })
    else (1, rb.advanceWrite)

def getchar : Option (List UInt8 × RingBuffer) :=
  if rb.dataLen = 0 then some ([], rb)
  else
    (rb.load rb.readIndex 1).map fun bytes => (bytes,
      if rb.readIndex.val + 1 = rb.bufferSize then
        { rb with readMirror := !rb.readMirror, readIndex := 0 }
      else { rb with readIndex := Fin.ofNat _ (rb.readIndex + 1) })

def reset : RingBuffer :=
  { rb with readMirror := false, readIndex := 0, writeMirror := false, writeIndex := 0 }

inductive Call where
  | put (bytes : List UInt8)
  | putForce (bytes : List UInt8)
  | get (length : ℕ)
  | putchar (ch : UInt8)
  | putcharForce (ch : UInt8)
  | getchar
  | reset
  deriving DecidableEq, Repr

/-- What a call returns, and `rt_ringbuffer_data_len` after it. -/
structure Reply where
  count : ℕ
  bytes : List UInt8
  dataLen : ℕ
  deriving DecidableEq, Repr

/-- The reply of a put. -/
def putReply (result : ℕ × RingBuffer) : Reply × RingBuffer :=
  (⟨result.1, [], result.2.dataLen⟩, result.2)

/-- The reply of a get. -/
def getReply (result : List UInt8 × RingBuffer) : Reply × RingBuffer :=
  (⟨result.1.length, result.1, result.2.dataLen⟩, result.2)

def call : Call → Option (Reply × RingBuffer)
  | .put bytes => (rb.put bytes).map putReply
  | .putForce bytes => (rb.putForce bytes).map putReply
  | .get length => (rb.get length).map getReply
  | .putchar ch => (rb.putchar ch).map putReply
  | .putcharForce ch => (rb.putcharForce ch).map putReply
  | .getchar => rb.getchar.map getReply
  | .reset => some (putReply (0, rb.reset))

/-- No call by force. -/
def Call.Plain : Call → Prop
  | .put _ | .get _ | .putchar _ | .getchar => True
  | _ => False

instance : DecidablePred Call.Plain
  | .put _ | .get _ | .putchar _ | .getchar => .isTrue trivial
  | .putForce _ | .putcharForce _ | .reset => .isFalse id

/-- Put appends what fits, and by force replaces the first bytes. -/
def queue (capacity : ℕ) (xs : List UInt8) : Call → Reply × List UInt8
  | .put bytes => append (bytes.take (capacity - xs.length))
  | .putchar ch => append ([ch].take (capacity - xs.length))
  | .get length => remove length
  | .getchar => remove 1
  | .putForce bytes => replace bytes
  | .putcharForce ch => replace [ch]
  | .reset => (⟨0, [], 0⟩, [])
where
  append (bytes : List UInt8) : Reply × List UInt8 :=
    (⟨bytes.length, [], (xs ++ bytes).length⟩, xs ++ bytes)
  remove (length : ℕ) : Reply × List UInt8 :=
    (⟨(xs.take length).length, xs.take length, (xs.drop length).length⟩, xs.drop length)
  replace (bytes : List UInt8) : Reply × List UInt8 :=
    (⟨min bytes.length capacity, [], min (xs.length + bytes.length) capacity⟩,
      (xs ++ bytes).drop (xs.length + bytes.length - capacity))

variable {rb rb' : RingBuffer} {xs ys bytes : List UInt8} {first : ℕ}

/-- The bytes in the order in which they were put. -/
structure Holds (rb : RingBuffer) (xs : List UInt8) : Prop where
  ring : Ring.Holds rb.bufferSize rb.buffer rb.readIndex rb.writeIndex xs
  small : rb.bufferSize < 2 ^ 15
  pool : rb.bufferSize ≤ rb.poolSize
  mirror : 0 < rb.bufferSize →
    (rb.readMirror = rb.writeMirror ↔ rb.readIndex + xs.length < rb.bufferSize)

theorem holds_init (pool : ℕ → UInt8) {size : ℕ} (small : size < 2 ^ 15) :
    (init pool size).Holds [] where
  ring := holds_nil ..
  small := (div_mul_le_self ..).trans_lt small
  pool := div_mul_le_self ..
  mirror positive := ⟨fun _ => positive, fun _ => rfl⟩

section

variable (holds : rb.Holds xs)
include holds

theorem Holds.position (positive : 0 < rb.bufferSize) :
    rb.readMirror = rb.writeMirror ∧ rb.readIndex + xs.length = rb.writeIndex.val ∧
        rb.writeIndex < rb.bufferSize ∨
      rb.readMirror = !rb.writeMirror ∧
        rb.readIndex + xs.length = rb.writeIndex.val + rb.bufferSize ∧
        rb.readIndex < rb.bufferSize ∧ rb.writeIndex.val ≤ rb.readIndex := by
  have firstLt := holds.ring.first_lt
  have length := holds.ring.length_le
  have last := holds.ring.last_eq
  by_cases side : rb.readMirror = rb.writeMirror
  · have below := (holds.mirror positive).mp side
    rw [mod_eq_of_lt below] at last
    exact .inl ⟨side, last.symm, by omega⟩
  · have wrapped := (holds.mirror positive).not.mp side
    rw [mod_eq_sub_mod (by omega), mod_eq_of_lt (by omega)] at last
    exact .inr ⟨eq_not.mpr side, by omega, by omega, by omega⟩

theorem Holds.of_size_zero (zero : rb.bufferSize = 0) :
    rb.readIndex.val = 0 ∧ rb.writeIndex.val = 0 ∧ xs = [] := by
  have length := holds.ring.length_le
  have firstLt := holds.ring.first_lt
  have last := holds.ring.last_eq
  rw [zero] at length firstLt last
  exact ⟨by omega, by omega, length_eq_zero_iff.mp (by omega)⟩

theorem Holds.dataLen_eq : rb.dataLen = xs.length := by
  have small := holds.small
  have same : rb.readIndex = rb.writeIndex ↔ rb.readIndex.val = rb.writeIndex := Fin.ext_iff
  by_cases positive : 0 < rb.bufferSize
  · rcases holds.position positive with ⟨side, next, below⟩ | ⟨side, next, below, le⟩
    · by_cases equal : rb.readIndex = rb.writeIndex
      · simp only [dataLen, status, if_pos equal, if_pos side]
        omega
      · simp only [dataLen, status, if_neg equal]
        rw [if_pos (by omega)]
        omega
    · by_cases equal : rb.readIndex = rb.writeIndex
      · simp only [dataLen, status, if_pos equal, if_neg (eq_not.mp side)]
        omega
      · simp only [dataLen, status, if_neg equal]
        rw [if_neg (by omega)]
        omega
  · have zero : rb.bufferSize = 0 := by omega
    obtain ⟨read, write, rfl⟩ := holds.of_size_zero zero
    have equal := same.mpr (read.trans write.symm)
    by_cases side : rb.readMirror = rb.writeMirror
    · simp only [dataLen, status, if_pos equal, if_pos side, length_nil]
    · simp only [dataLen, status, if_pos equal, if_neg side, zero, length_nil]

theorem Holds.spaceLen_eq : rb.spaceLen = rb.bufferSize - xs.length := by
  have small := holds.small
  have length := holds.ring.length_le
  rw [spaceLen, holds.dataLen_eq]
  omega

theorem Holds.spaceLen_mod : rb.spaceLen % 2 ^ 16 = rb.bufferSize - xs.length := by
  have small := holds.small
  rw [holds.spaceLen_eq, mod_eq_of_lt (by omega)]

end

/-! ## Writing -/

theorem store_of_le {start : ℕ} (inside : start + bytes.length ≤ rb.poolSize) :
    rb.store start bytes = some { rb with buffer := copy rb.buffer start bytes } :=
  if_pos inside

theorem val_index {n : ℕ} (lt : n < 2 ^ 15) : (Fin.ofNat (2 ^ 15) n).val = n := mod_eq_of_lt lt

section

variable (ring : Ring.Holds rb.bufferSize rb.buffer first rb.writeIndex ys)
  (small : rb.bufferSize < 2 ^ 15) (pool : rb.bufferSize ≤ rb.poolSize)
  (fits : ys.length + bytes.length ≤ rb.bufferSize)

include ring small pool fits

theorem writeHere_eq_some (here : bytes.length + rb.writeIndex < rb.bufferSize) :
    ∃ buffer index, rb.writeHere bytes = some { rb with buffer := buffer, writeIndex := index } ∧
      index.val = rb.writeIndex + bytes.length ∧
      Ring.Holds rb.bufferSize buffer first index (ys ++ bytes) := by
  have index := val_index (n := rb.writeIndex + bytes.length) (by omega)
  refine ⟨copy rb.buffer rb.writeIndex bytes, Fin.ofNat _ (rb.writeIndex + bytes.length), ?_,
    index, ?_⟩
  · rw [writeHere, store_of_le (by omega)]
    rfl
  · have appended := ring.copy bytes fits (by omega)
    rwa [mod_eq_of_lt (by omega), ← index] at appended

theorem writeAcross_eq_some (positive : 0 < rb.bufferSize)
    (across : rb.bufferSize ≤ bytes.length + rb.writeIndex) :
    ∃ buffer index, rb.writeAcross bytes =
        some { rb with buffer := buffer, writeMirror := !rb.writeMirror, writeIndex := index } ∧
      index.val + rb.bufferSize = rb.writeIndex + bytes.length ∧
      Ring.Holds rb.bufferSize buffer first index (ys ++ bytes) := by
  have inside := ring.last_lt positive
  obtain ⟨top, topEq⟩ : ∃ top, top = rb.bufferSize - rb.writeIndex.val := ⟨_, rfl⟩
  have index := val_index (n := bytes.length - top) (by omega)
  have upper : (bytes.take top).length = top := length_take_of_le (by omega)
  have lower : (bytes.drop top).length = bytes.length - top := length_drop
  refine ⟨copy (copy rb.buffer rb.writeIndex (bytes.take top)) 0 (bytes.drop top),
    Fin.ofNat _ (bytes.length - top), ?_, by omega, ?_⟩
  · rw [writeAcross, if_neg (by omega), ← topEq]
    dsimp only
    rw [store_of_le (by omega), bind_eq_bind, bind_some]
    rw [store_of_le (by dsimp only; omega)]
    rfl
  · -- the first part ends at the end of the buffer, the second one starts at its beginning
    have first := ring.copy (bytes.take top) (by omega) (by omega)
    rw [upper, show rb.writeIndex + top = rb.bufferSize by omega, mod_self] at first
    have second := first.copy (bytes.drop top) (by rw [length_append]; omega) (by omega)
    rwa [append_assoc, take_append_drop, zero_add, lower, mod_eq_of_lt (by omega),
      ← index] at second

end

theorem Holds.writeHere (holds : rb.Holds xs) (fits : xs.length + bytes.length ≤ rb.bufferSize)
    (here : bytes.length + rb.writeIndex < rb.bufferSize) :
    ∃ rb', rb.writeHere bytes = some rb' ∧ rb'.bufferSize = rb.bufferSize ∧
      rb'.Holds (xs ++ bytes) := by
  obtain ⟨buffer, index, written, indexEq, ring⟩ :=
    writeHere_eq_some holds.ring holds.small holds.pool fits here
  refine ⟨_, written, rfl, ring, holds.small, holds.pool, fun positive => ?_⟩
  have position := holds.position positive
  rw [holds.mirror positive, length_append]
  dsimp only
  omega

theorem Holds.writeAcross (holds : rb.Holds xs) (positive : 0 < rb.bufferSize)
    (fits : xs.length + bytes.length ≤ rb.bufferSize)
    (across : rb.bufferSize ≤ bytes.length + rb.writeIndex) :
    ∃ rb', rb.writeAcross bytes = some rb' ∧ rb'.bufferSize = rb.bufferSize ∧
      rb'.Holds (xs ++ bytes) := by
  obtain ⟨buffer, index, written, indexEq, ring⟩ :=
    writeAcross_eq_some holds.ring holds.small holds.pool fits positive across
  refine ⟨_, written, rfl, ring, holds.small, holds.pool, fun _ => ?_⟩
  rw [length_append]
  dsimp only
  -- a writer on the other side of the mirror has no space up to the end of the buffer
  rcases holds.position positive with ⟨side, next, below⟩ | ⟨side, next, below, le⟩
  · refine iff_of_false (fun same => ?_) (by omega)
    rw [side] at same
    exact (eq_not_self _).mp same
  · omega

theorem Holds.put (holds : rb.Holds xs) (bytes : List UInt8) :
    ∃ rb', rb.put bytes = some ((bytes.take (rb.bufferSize - xs.length)).length, rb') ∧
      rb'.bufferSize = rb.bufferSize ∧
      rb'.Holds (xs ++ bytes.take (rb.bufferSize - xs.length)) := by
  rw [RingBuffer.put, holds.spaceLen_mod]
  by_cases space : rb.bufferSize - xs.length = 0
  · refine ⟨rb, ?_, rfl, ?_⟩
    · rw [space, if_pos rfl, take_zero, length_nil]
    · rwa [space, take_zero, append_nil]
  · have fits : xs.length + (bytes.take (rb.bufferSize - xs.length)).length ≤ rb.bufferSize := by
      rw [length_take]
      omega
    dsimp only
    split_ifs with here
    · obtain ⟨rb', written, size, holds'⟩ := holds.writeHere fits here
      exact ⟨rb', by rw [written, map_some], size, holds'⟩
    · obtain ⟨rb', written, size, holds'⟩ := holds.writeAcross (by omega) fits (by omega)
      exact ⟨rb', by rw [written, map_some], size, holds'⟩

/-- What is left if the oldest bytes are discarded. -/
def newest (capacity : ℕ) (xs bytes : List UInt8) : List UInt8 :=
  (xs ++ bytes).drop (xs.length + bytes.length - capacity)

theorem newest_drop (capacity : ℕ) (xs bytes : List UInt8) :
    newest capacity xs (bytes.drop (bytes.length - capacity)) = newest capacity xs bytes := by
  by_cases long : bytes.length ≤ capacity
  · rw [Nat.sub_eq_zero_of_le long, drop_zero]
  · have length : (bytes.drop (bytes.length - capacity)).length = capacity := by
      rw [length_drop]
      omega
    have before : xs.length + bytes.length - capacity = xs.length + (bytes.length - capacity) := by
      omega
    rw [newest, newest, length, Nat.add_sub_cancel, drop_left, before, drop_length_add_append]

theorem newest_eq_append {capacity : ℕ} (short : bytes.length ≤ capacity) :
    newest capacity xs bytes = xs.drop (xs.length + bytes.length - capacity) ++ bytes := by
  rw [newest, drop_append_of_le_length (by omega)]

theorem Holds.overwritten {buffer : ℕ → UInt8} {index : Fin (2 ^ 15)} (holds : rb.Holds xs)
    (positive : 0 < rb.bufferSize) (ring : Ring.Holds rb.bufferSize buffer first index ys)
    (full : ys.length = rb.bufferSize) (readMirror writeMirror : Bool) :
    RingBuffer.Holds
      ⟨rb.poolSize, buffer, readMirror, index, writeMirror, index, rb.bufferSize⟩
      (if readMirror ≠ writeMirror then ys else []) := by
  have same := (ring.last_eq_first_iff positive).mpr (.inr full)
  have inside := ring.last_lt positive
  split_ifs with side
  · rw [← same] at ring
    refine ⟨ring, holds.small, holds.pool, fun _ => iff_of_false side ?_⟩
    dsimp only
    omega
  · exact ⟨⟨zero_le _, lt_max_of_lt_right inside, (mod_eq_of_lt inside).symm, nofun⟩,
      holds.small, holds.pool, fun _ => iff_of_true (not_not.mp side) inside⟩

/-- The oldest bytes are discarded if on the other side of the mirror, and else all. -/
theorem Holds.putForce (holds : rb.Holds xs) (positive : 0 < rb.bufferSize) (bytes : List UInt8) :
    ∃ rb', rb.putForce bytes = some (min bytes.length rb.bufferSize, rb') ∧
      rb'.bufferSize = rb.bufferSize ∧
      rb'.Holds (if min bytes.length rb.bufferSize ≤ rb.spaceLen ∨ rb.readMirror ≠ rb.writeMirror
        then newest rb.bufferSize xs bytes else []) := by
  rw [RingBuffer.putForce, holds.spaceLen_mod, holds.spaceLen_eq, ← newest_drop]
  have length := holds.ring.length_le
  have count : min bytes.length rb.bufferSize =
      (bytes.drop (bytes.length - rb.bufferSize)).length := by
    rw [length_drop]
    omega
  have short : (bytes.drop (bytes.length - rb.bufferSize)).length ≤ rb.bufferSize := by omega
  rw [count, newest_eq_append short]
  generalize bytes.drop (bytes.length - rb.bufferSize) = new at short
  by_cases space : new.length ≤ rb.bufferSize - xs.length
  · have nothing : xs.length + new.length - rb.bufferSize = 0 := by omega
    simp only [or_iff_left_of_imp fun _ => space, if_pos space, if_neg space.not_gt, nothing,
      drop_zero]
    split_ifs with here
    · obtain ⟨rb', written, size, holds'⟩ := holds.writeHere (by omega) here
      exact ⟨rb', by rw [written, map_some], size, holds'⟩
    · obtain ⟨rb', written, size, holds'⟩ := holds.writeAcross positive (by omega) (not_lt.mp here)
      exact ⟨rb', by rw [written, map_some], size, holds'⟩
  · -- the new bytes and the kept ones fill the buffer
    simp only [or_iff_right space, if_pos (not_le.mp space)]
    have kept := holds.ring.drop (n := xs.length + new.length - rb.bufferSize) (by omega)
    have keptLength : (xs.drop (xs.length + new.length - rb.bufferSize)).length =
        rb.bufferSize - new.length := by
      rw [length_drop]
      omega
    have full : (xs.drop (xs.length + new.length - rb.bufferSize) ++ new).length =
        rb.bufferSize := by
      rw [length_append]
      omega
    by_cases here : new.length + rb.writeIndex < rb.bufferSize
    · obtain ⟨buffer, index, written, -, ring⟩ :=
        writeHere_eq_some kept holds.small holds.pool (by omega) here
      rw [if_pos here, written]
      exact ⟨_, rfl, rfl, holds.overwritten positive ring full rb.readMirror rb.writeMirror⟩
    · obtain ⟨buffer, index, written, -, ring⟩ :=
        writeAcross_eq_some kept holds.small holds.pool (by omega) positive (not_lt.mp here)
      rw [if_neg here, written]
      refine ⟨_, rfl, rfl, ?_⟩
      simpa only [ne_eq, not_inj_iff] using
        holds.overwritten positive ring full (!rb.readMirror) (!rb.writeMirror)

theorem load_of_le {start length : ℕ} (inside : start + length ≤ rb.poolSize) :
    rb.load start length = some (slice rb.buffer start length) :=
  if_pos inside

theorem Holds.get (holds : rb.Holds xs) (length : ℕ) :
    ∃ rb', rb.get length = some (xs.take length, rb') ∧ rb'.bufferSize = rb.bufferSize ∧
      rb'.Holds (xs.drop length) := by
  have lengthLe := holds.ring.length_le
  have pool := holds.pool
  have small := holds.small
  rw [RingBuffer.get, holds.dataLen_eq]
  by_cases empty : xs.length = 0
  · obtain rfl := length_eq_zero_iff.mp empty
    exact ⟨rb, by rw [if_pos empty, take_nil], rfl, by rwa [drop_nil]⟩
  · rw [if_neg empty, take_eq_take_min, drop_eq_drop_min]
    have atMost : min length xs.length ≤ xs.length := min_le_right ..
    generalize min length xs.length = n at atMost
    have positive : 0 < rb.bufferSize := by omega
    have position := holds.position positive
    have rest := holds.ring.drop atMost
    by_cases here : n + rb.readIndex < rb.bufferSize
    · have index := val_index (n := rb.readIndex + n) (by omega)
      rw [if_pos here, load_of_le (by omega), holds.ring.slice_eq_take atMost (by omega)]
      refine ⟨_, rfl, rfl, ?_, small, pool, fun _ => ?_⟩
      · rwa [mod_eq_of_lt (by omega), ← index] at rest
      · rw [holds.mirror positive, length_drop]
        dsimp only
        omega
    · obtain ⟨top, topEq⟩ : ∃ top, top = rb.bufferSize - rb.readIndex.val := ⟨_, rfl⟩
      obtain ⟨side, next, below, le⟩ := position.resolve_left (by omega)
      have index := val_index (n := n - top) (by omega)
      -- the first part ends at the end of the buffer, the second one starts at its beginning
      have bottom := holds.ring.drop (n := top) (by omega)
      rw [show rb.readIndex + top = rb.bufferSize by omega, mod_self] at bottom
      have second := bottom.slice_eq_take (n := n - top) (by rw [length_drop]; omega) (by omega)
      have together : xs.take top ++ (xs.drop top).take (n - top) = xs.take n := by
        rw [← take_add, Nat.add_sub_cancel' (by omega)]
      rw [if_neg here, if_neg (by omega), ← topEq]
      dsimp only
      rw [load_of_le (by omega), load_of_le (by omega),
        holds.ring.slice_eq_take (by omega) (by omega), second, ← together]
      refine ⟨_, rfl, rfl, ?_, small, pool, fun _ => ?_⟩
      · rwa [mod_eq_sub_mod (by omega), mod_eq_of_lt (by omega),
          show rb.readIndex + n - rb.bufferSize = n - top by omega, ← index] at rest
      · rw [length_drop]
        refine iff_of_true (not_eq_eq_eq_not.mpr side) ?_
        dsimp only
        omega

theorem writeHere_singleton (ch : UInt8) (here : 1 + rb.writeIndex < rb.bufferSize) :
    rb.writeHere [ch] = (rb.store rb.writeIndex [ch]).map advanceWrite := by
  rw [writeHere, store]
  split_ifs with inside
  · simp only [map_some, advanceWrite]
    rw [if_neg (by omega)]
    rfl
  · rfl

theorem writeAcross_singleton (ch : UInt8) (across : rb.writeIndex.val + 1 = rb.bufferSize) :
    rb.writeAcross [ch] = (rb.store rb.writeIndex [ch]).map advanceWrite := by
  rw [writeAcross, if_neg (by omega), show rb.bufferSize - rb.writeIndex = 1 by omega]
  dsimp only
  rw [take_succ_cons, take_zero, drop_succ_cons, drop_zero, store]
  split_ifs with inside
  · rw [bind_eq_bind, bind_some, store_of_le (by simp), copy_nil,
      map_some, advanceWrite, if_pos across]
    rfl
  · rfl

section

variable (holds : rb.Holds xs)
include holds

theorem Holds.putchar_eq_put (ch : UInt8) : rb.putchar ch = rb.put [ch] := by
  rw [putchar, RingBuffer.put, holds.spaceLen_mod, holds.spaceLen_eq]
  split_ifs with full
  · rfl
  · have inside := holds.ring.last_lt (by omega)
    rw [take_of_length_le (by rw [length_singleton]; omega)]
    dsimp only [length_singleton]
    split_ifs with here
    · rw [writeHere_singleton ch here, Option.map_map]
      rfl
    · rw [writeAcross_singleton ch (by omega), Option.map_map]
      rfl

theorem Holds.getchar_eq_get : rb.getchar = rb.get 1 := by
  have length := holds.ring.length_le
  have firstLt := holds.ring.first_lt
  have pool := holds.pool
  rw [getchar, RingBuffer.get, holds.dataLen_eq]
  by_cases empty : xs.length = 0
  · rw [if_pos empty, if_pos empty]
  · rw [if_neg empty, if_neg empty, min_eq_left (by omega), load_of_le (by omega), map_some]
    dsimp only
    by_cases last : rb.readIndex.val + 1 = rb.bufferSize
    · rw [if_pos last, if_neg (by omega), if_neg (by omega),
        show rb.bufferSize - rb.readIndex = 1 by omega, load_of_le (by omega),
        load_of_le (by omega)]
      rfl
    · rw [if_neg last, if_pos (by omega), load_of_le (by omega)]
      rfl

theorem Holds.status_eq_full_iff (positive : 0 < rb.bufferSize) :
    rb.status = .full ↔ rb.bufferSize - xs.length < 1 := by
  rw [status]
  rcases holds.position positive with ⟨side, next, below⟩ | ⟨side, next, below, le⟩
  · refine iff_of_false ?_ (by omega)
    split_ifs <;> nofun
  · rw [if_neg (eq_not.mp side)]
    split_ifs with equal
    · exact iff_of_true rfl (by omega)
    · exact iff_of_false nofun (by omega)

theorem Holds.putcharForce_eq_putForce (positive : 0 < rb.bufferSize) (ch : UInt8) :
    rb.putcharForce ch = rb.putForce [ch] := by
  have inside := holds.ring.last_lt positive
  have pool := holds.pool
  have stored : rb.store rb.writeIndex [ch] = some { rb with buffer := copy _ _ _ } :=
    store_of_le (by rw [length_singleton]; omega)
  rw [putcharForce, RingBuffer.putForce, holds.spaceLen_mod, length_singleton,
    Nat.sub_eq_zero_of_le positive, drop_zero]
  simp only [length_singleton, holds.status_eq_full_iff positive]
  by_cases last : rb.writeIndex.val + 1 = rb.bufferSize
  · rw [if_neg (by omega), writeAcross_singleton ch last, stored]
    simp only [map_some, advanceWrite, if_pos last]
    split_ifs <;> rfl
  · rw [if_pos (by omega), writeHere_singleton ch (by omega), stored]
    simp only [map_some, advanceWrite, if_neg last]
    split_ifs <;> rfl

theorem Holds.call_of_plain {c : Call} (plain : c.Plain) :
    ∃ rb', rb.call c = some ((queue rb.bufferSize xs c).1, rb') ∧ rb'.bufferSize = rb.bufferSize ∧
      rb'.Holds (queue rb.bufferSize xs c).2 := by
  have put (bytes : List UInt8) : ∃ rb', (rb.put bytes).map putReply =
      some ((queue rb.bufferSize xs (.put bytes)).1, rb') ∧ rb'.bufferSize = rb.bufferSize ∧
      rb'.Holds (queue rb.bufferSize xs (.put bytes)).2 := by
    obtain ⟨rb', result, size, holds'⟩ := holds.put bytes
    exact ⟨rb', by rw [result, map_some, putReply, holds'.dataLen_eq]; rfl, size, holds'⟩
  have get (length : ℕ) : ∃ rb', (rb.get length).map getReply =
      some ((queue rb.bufferSize xs (.get length)).1, rb') ∧ rb'.bufferSize = rb.bufferSize ∧
      rb'.Holds (queue rb.bufferSize xs (.get length)).2 := by
    obtain ⟨rb', result, size, holds'⟩ := holds.get length
    exact ⟨rb', by rw [result, map_some, getReply, holds'.dataLen_eq]; rfl, size, holds'⟩
  cases c with
  | put bytes => exact put bytes
  | get length => exact get length
  | putchar ch =>
    rw [call, holds.putchar_eq_put]
    exact put [ch]
  | getchar =>
    rw [call, holds.getchar_eq_get]
    exact get 1
  | putForce | putcharForce | reset => exact plain.elim

theorem Holds.replies_of_plain {calls : List Call} (plain : ∀ c ∈ calls, c.Plain) :
    replies (liftReply call) (some rb) calls =
      (replies (queue rb.bufferSize) xs calls).map some := by
  refine Run.Along.replies_eq_map (R := fun o xs =>
    ∃ rb', o = some rb' ∧ rb'.bufferSize = rb.bufferSize ∧ rb'.Holds xs) ?_
    (along_of_forall plain _) ⟨rb, rfl, rfl, holds⟩
  rintro _ ys c plain ⟨rb', rfl, size, holds'⟩
  obtain ⟨rb'', result, size', holds''⟩ := holds'.call_of_plain plain
  rw [size] at result size' holds''
  rw [liftReply, bind_some, result]
  exact ⟨rfl, rb'', rfl, size', holds''⟩

end

theorem plain_get (lengths : List ℕ) : ∀ c ∈ lengths.map Call.get, c.Plain := by
  intro c hc
  obtain ⟨length, -, rfl⟩ := List.mem_map.mp hc
  trivial

/-- Every plain call on a ring buffer is one on a queue of bytes with the capacity of the pool. -/
theorem replies_eq_queue (pool : ℕ → UInt8) {size : ℕ} (small : size < 2 ^ 15) {calls : List Call}
    (plain : ∀ c ∈ calls, c.Plain) :
    replies (liftReply call) (some (init pool size)) calls =
      (replies (queue (init pool size).bufferSize) [] calls).map some :=
  (holds_init pool small).replies_of_plain plain

theorem replies_eq_queue_wrapped :
    replies (liftReply call) (some (init (fun _ => 0) 9))
        [.put [1, 2, 3, 4, 5], .get 3, .put [6, 7, 8, 9, 10, 11, 12, 13], .getchar, .putchar 14] =
      [some ⟨5, [], 5⟩, some ⟨3, [1, 2, 3], 2⟩, some ⟨6, [], 8⟩, some ⟨1, [4], 7⟩,
        some ⟨1, [], 8⟩] :=
  (replies_eq_queue _ (by decide) (by decide)).trans (by decide)

/-! ## Overwriting -/

/-- The buffer after a call. -/
def after (rb : RingBuffer) (c : Call) : Option RingBuffer := (rb.call c).map Prod.snd

/-- The bytes from the read index on. -/
def contents (rb : RingBuffer) : List UInt8 :=
  (List.range rb.dataLen).map fun i => rb.buffer ((rb.readIndex + i) % rb.bufferSize)

theorem Holds.contents_eq (holds : rb.Holds xs) : rb.contents = xs := by
  rw [contents, holds.dataLen_eq, ← holds.ring.eq_map]

/-- The buffer has the newest bytes, and only these are got from then on. -/
def KeepsNewest (rb : RingBuffer) (bytes : List UInt8) : Prop :=
  ∃ count rb', rb.putForce bytes = some (count, rb') ∧
    rb'.contents = newest rb.bufferSize rb.contents bytes ∧
    ∀ lengths : List ℕ, replies (liftReply call) (some rb') (lengths.map .get) =
      (replies (queue rb.bufferSize) (newest rb.bufferSize rb.contents bytes)
        (lengths.map .get)).map some

theorem Holds.keeps_iff (holds : rb.Holds xs) (positive : 0 < rb.bufferSize)
    (bytes : List UInt8) : rb.KeepsNewest bytes ↔
      min bytes.length rb.bufferSize ≤ rb.spaceLen ∨ rb.readMirror ≠ rb.writeMirror := by
  obtain ⟨rb', result, size, holds'⟩ := holds.putForce positive bytes
  constructor
  · rintro ⟨count, rb'', result', contents, -⟩
    obtain rfl : rb' = rb'' := by
      rw [result] at result'
      exact congrArg Prod.snd (some.inj result')
    by_contra lost
    rw [if_neg lost] at holds'
    rw [holds'.contents_eq, holds.contents_eq, newest, eq_comm, drop_eq_nil_iff,
      length_append] at contents
    omega
  · intro kept
    rw [if_pos kept] at holds'
    refine ⟨_, rb', result, ?_, fun lengths => ?_⟩
    · rw [holds'.contents_eq, holds.contents_eq]
    · have replies := holds'.replies_of_plain (plain_get lengths)
      rwa [size, ← holds.contents_eq] at replies

/-! A pool of less than four bytes makes a buffer without space.  Only `rt_ringbuffer_putchar_force`
does not respect this: it moves the write index. -/

theorem holds_nil_of_size_zero (zero : rb.bufferSize = 0) (read : rb.readIndex.val = 0)
    (write : rb.writeIndex.val = 0) : rb.Holds [] where
  ring := by
    rw [zero, read, write]
    exact holds_nil ..
  small := by omega
  pool := by omega
  mirror := by omega

theorem putForce_of_size_zero (zero : rb.bufferSize = 0) (bytes : List UInt8) :
    rb.putForce bytes =
      if rb.writeIndex.val = 0 then
        some (0, { rb with writeMirror := !rb.writeMirror, writeIndex := 0 })
      else none := by
  rw [RingBuffer.putForce, zero, Nat.sub_zero, drop_length, length_nil, if_neg (by omega),
    writeAcross, zero]
  by_cases start : rb.writeIndex.val = 0
  · have nothing (start : ℕ) (h : start = 0) : rb.store start [] = some rb := by
      rw [store_of_le (by rw [h]; exact zero_le _), copy_nil]
    rw [if_neg (by omega), if_pos start]
    dsimp only
    rw [take_nil, drop_nil, nothing _ start]
    simp only [bind_eq_bind, bind_some, nothing, length_nil, Nat.zero_sub,
      Nat.not_lt_zero, if_false, zero]
    rfl
  · rw [if_pos (by omega), if_neg start, map_none]

theorem keepsNewest_iff_of_size_zero (zero : rb.bufferSize = 0) (bytes : List UInt8) :
    rb.KeepsNewest bytes ↔ rb.readIndex.val = 0 ∧ rb.writeIndex.val = 0 := by
  have none : newest rb.bufferSize rb.contents bytes = [] := by
    rw [newest, zero, Nat.sub_zero, ← length_append, drop_length]
  rw [KeepsNewest, none, putForce_of_size_zero zero]
  by_cases write : rb.writeIndex.val = 0
  · rw [if_pos write, and_iff_left write]
    constructor
    · rintro ⟨count, rb', result, empty, -⟩
      obtain ⟨-, rfl⟩ := Prod.mk.inj (some.inj result)
      by_contra read
      -- the length would be negative
      have behind : ¬rb.readIndex = 0 := fun h => read (Fin.val_eq_zero_iff.mpr h)
      rw [contents, map_eq_nil_iff, range_eq_nil, dataLen, status, if_neg behind] at empty
      dsimp only at empty
      rw [Fin.val_zero, if_neg (not_lt_zero _)] at empty
      omega
    · intro read
      have holds :
          RingBuffer.Holds { rb with writeMirror := !rb.writeMirror, writeIndex := 0 } [] :=
        holds_nil_of_size_zero zero read rfl
      exact ⟨0, _, rfl, holds.contents_eq,
        fun lengths => holds.replies_of_plain (plain_get lengths)⟩
  · rw [if_neg write]
    refine iff_of_false ?_ fun both => write both.2
    rintro ⟨_, _, ⟨⟩, -⟩

theorem bufferSize_of_store {start : ℕ} (h : rb.store start bytes = some rb') :
    rb'.bufferSize = rb.bufferSize := by
  grind [store]

theorem bufferSize_of_writeHere (h : rb.writeHere bytes = some rb') :
    rb'.bufferSize = rb.bufferSize := by
  obtain ⟨stored, store, written⟩ := bind_eq_some_iff.mp h
  rw [← some.inj written, bufferSize_of_store store]

theorem bufferSize_of_writeAcross (h : rb.writeAcross bytes = some rb') :
    rb'.bufferSize = rb.bufferSize := by
  rw [RingBuffer.writeAcross] at h
  split_ifs at h
  obtain ⟨top, storeTop, h⟩ := bind_eq_some_iff.mp h
  obtain ⟨bottom, storeBottom, written⟩ := bind_eq_some_iff.mp h
  rw [← some.inj written, bufferSize_of_store storeBottom, bufferSize_of_store storeTop]

theorem bufferSize_advanceWrite (rb : RingBuffer) : rb.advanceWrite.bufferSize = rb.bufferSize := by
  rw [advanceWrite]
  split_ifs <;> rfl

theorem bufferSize_of_map {α β : Type} {o : Option α} {f : α → β × RingBuffer} {size : ℕ}
    (keep : ∀ x ∈ o, (f x).2.bufferSize = size) : ∀ r ∈ o.map f, r.2.bufferSize = size := by
  intro r found
  obtain ⟨x, mem, rfl⟩ := map_eq_some_iff.mp found
  exact keep x mem

theorem bufferSize_of_put : ∀ r ∈ rb.put bytes, r.2.bufferSize = rb.bufferSize := by
  rw [RingBuffer.put]
  dsimp only
  split_ifs
  · rintro _ ⟨⟩
    rfl
  · exact bufferSize_of_map fun _ write => bufferSize_of_writeHere write
  · exact bufferSize_of_map fun _ write => bufferSize_of_writeAcross write

theorem bufferSize_of_putForce : ∀ r ∈ rb.putForce bytes, r.2.bufferSize = rb.bufferSize := by
  rw [RingBuffer.putForce]
  split_ifs
  all_goals refine bufferSize_of_map fun written write => ?_
  · exact (bufferSize_of_writeHere write :)
  · exact (bufferSize_of_writeHere write :)
  · exact (bufferSize_of_writeAcross write :)
  · exact (bufferSize_of_writeAcross write :)

theorem bufferSize_of_get {length : ℕ} : ∀ r ∈ rb.get length, r.2.bufferSize = rb.bufferSize := by
  rintro ⟨bytes, rb'⟩ h
  rw [RingBuffer.get] at h
  dsimp only at h
  split_ifs at h
  · cases h
    rfl
  · obtain ⟨_, -, ⟨⟩⟩ := bind_eq_some_iff.mp h
    rfl
  · cases h
  · obtain ⟨_, -, h⟩ := bind_eq_some_iff.mp h
    obtain ⟨_, -, ⟨⟩⟩ := bind_eq_some_iff.mp h
    rfl

theorem bufferSize_of_putchar {ch : UInt8} :
    ∀ r ∈ rb.putchar ch, r.2.bufferSize = rb.bufferSize := by
  rw [putchar]
  split_ifs
  · rintro _ ⟨⟩
    rfl
  · exact bufferSize_of_map fun _ store =>
      (bufferSize_advanceWrite _).trans (bufferSize_of_store store)

theorem bufferSize_of_putcharForce {ch : UInt8} :
    ∀ r ∈ rb.putcharForce ch, r.2.bufferSize = rb.bufferSize := by
  refine bufferSize_of_map fun stored store => ?_
  split_ifs
  all_goals exact (bufferSize_advanceWrite _).trans (bufferSize_of_store store)

theorem bufferSize_of_getchar : ∀ r ∈ rb.getchar, r.2.bufferSize = rb.bufferSize := by
  rw [getchar]
  split_ifs
  · rintro _ ⟨⟩
    rfl
  all_goals exact bufferSize_of_map fun _ _ => rfl

theorem bufferSize_of_after {c : Call} (h : rb.after c = some rb') :
    rb'.bufferSize = rb.bufferSize := by
  obtain ⟨r, called, rfl⟩ := map_eq_some_iff.mp h
  clear h
  revert r
  cases c with
  | put bytes => exact bufferSize_of_map (f := putReply) bufferSize_of_put
  | putForce bytes => exact bufferSize_of_map (f := putReply) bufferSize_of_putForce
  | get length => exact bufferSize_of_map (f := getReply) bufferSize_of_get
  | putchar ch => exact bufferSize_of_map (f := putReply) bufferSize_of_putchar
  | putcharForce ch => exact bufferSize_of_map (f := putReply) bufferSize_of_putcharForce
  | getchar => exact bufferSize_of_map (f := getReply) bufferSize_of_getchar
  | reset =>
    rintro _ ⟨⟩
    rfl

theorem Holds.after (holds : rb.Holds xs) (positive : 0 < rb.bufferSize) {c : Call}
    (h : rb.after c = some rb') : ∃ ys, rb'.Holds ys := by
  obtain ⟨⟨reply, last⟩, called, rfl⟩ := map_eq_some_iff.mp h
  have plain (plain : c.Plain) : ∃ ys, last.Holds ys := by
    obtain ⟨rb', result, -, holds'⟩ := holds.call_of_plain plain
    rw [result] at called
    rw [← (Prod.mk.inj (some.inj called)).2]
    exact ⟨_, holds'⟩
  have force (bytes : List UInt8) (same : rb.call c = (rb.putForce bytes).map putReply) :
      ∃ ys, last.Holds ys := by
    obtain ⟨rb', result, -, holds'⟩ := holds.putForce positive bytes
    rw [same, result, map_some, putReply] at called
    rw [← (Prod.mk.inj (some.inj called)).2]
    exact ⟨_, holds'⟩
  cases c with
  | put | get | putchar | getchar => exact plain trivial
  | putForce bytes => exact force bytes (by rw [call])
  | putcharForce ch => exact force [ch] (by rw [call, holds.putcharForce_eq_putForce positive])
  | reset =>
    rw [← (Prod.mk.inj (some.inj called)).2]
    exact ⟨[], holds_nil .., holds.small, holds.pool, fun _ => iff_of_true rfl positive⟩

theorem holds_of_reached (pool : ℕ → UInt8) {size : ℕ} (small : size < 2 ^ 15) {calls : List Call}
    (reached : run (lift after) (some (init pool size)) calls = some rb) :
    rb.bufferSize = 0 ∨ 0 < rb.bufferSize ∧ ∃ xs, rb.Holds xs := by
  refine lift_invariant
    (I := fun rb => rb.bufferSize = 0 ∨ 0 < rb.bufferSize ∧ ∃ xs, rb.Holds xs)
    ?_ ?_ calls rb reached
  · rintro rb c rb' (zero | ⟨positive, xs, holds⟩) h
    · exact .inl ((bufferSize_of_after h).trans zero)
    · exact .inr ⟨by rwa [bufferSize_of_after h], holds.after positive h⟩
  · exact (eq_zero_or_pos _).imp_right fun positive => ⟨positive, [], holds_init pool small⟩

/-- `rt_ringbuffer_put_force` keeps the newest bytes only with enough space or if just the writer
has wrapped. -/
theorem keepsNewest_iff (pool : ℕ → UInt8) {size : ℕ} (small : size < 2 ^ 15) {calls : List Call}
    (reached : run (lift after) (some (init pool size)) calls = some rb)
    (bytes : List UInt8) : rb.KeepsNewest bytes ↔
      (rb.readIndex ≤ rb.bufferSize ∧ rb.writeIndex ≤ rb.bufferSize) ∧
      (min bytes.length rb.bufferSize ≤ rb.spaceLen ∨ rb.readMirror ≠ rb.writeMirror) := by
  rcases holds_of_reached pool small reached with zero | ⟨positive, xs, holds⟩
  · have fits : min bytes.length 0 ≤ rb.spaceLen := by omega
    rw [keepsNewest_iff_of_size_zero zero, zero, le_zero, le_zero,
      and_iff_left (Or.inl fits)]
  · have position := holds.position positive
    rw [holds.keeps_iff positive, and_iff_right ⟨by omega, by omega⟩]

theorem keepsNewest_wrapped :
    ∃ rb, run (lift after) (some (init (fun _ => 0) 8))
        [.put [1, 2, 3, 4, 5], .get 3, .put [6, 7, 8, 9]] = some rb ∧
      rb.contents = [4, 5, 6, 7, 8, 9] ∧ rb.KeepsNewest [10, 11, 12, 13] := by
  have evaluated : (run (lift after) (some (init (fun _ => 0) 8))
      [.put [1, 2, 3, 4, 5], .get 3, .put [6, 7, 8, 9]]).map (fun rb => (rb.contents,
        rb.readIndex.val, rb.writeIndex.val, rb.bufferSize, rb.readMirror, rb.writeMirror)) =
      some ([4, 5, 6, 7, 8, 9], 3, 1, 8, false, true) := by decide +kernel
  obtain ⟨rb, reached, values⟩ := map_eq_some_iff.mp evaluated
  simp only [Prod.mk.injEq] at values
  obtain ⟨contents, read, write, size, readMirror, writeMirror⟩ := values
  refine ⟨rb, reached, contents, (keepsNewest_iff _ (by decide) reached _).mpr
    ⟨⟨by omega, by omega⟩, .inr ?_⟩⟩
  rw [readMirror, writeMirror]
  decide

/-- Five bytes in a buffer of eight, and then four more by force: all are lost. -/
theorem putForce_loses_all :
    ∃ rb, run (lift after) (some (init (fun _ => 0) 8)) [.put [1, 2, 3, 4, 5]] = some rb ∧
      rb.contents = [1, 2, 3, 4, 5] ∧ rb.bufferSize = 8 ∧ ¬rb.KeepsNewest [6, 7, 8, 9] := by
  have evaluated : (run (lift after) (some (init (fun _ => 0) 8))
      [.put [1, 2, 3, 4, 5]]).map (fun rb => (rb.contents, rb.bufferSize,
        (rb.putForce [6, 7, 8, 9]).map fun result => result.2.contents)) =
      some ([1, 2, 3, 4, 5], 8, some []) := by decide +kernel
  obtain ⟨rb, reached, values⟩ := map_eq_some_iff.mp evaluated
  simp only [Prod.mk.injEq] at values
  obtain ⟨contents, size, lost⟩ := values
  refine ⟨rb, reached, contents, size, ?_⟩
  rintro ⟨count, rb', result, kept, -⟩
  rw [result, map_some, kept, contents, size, some.injEq] at lost
  exact absurd lost (by decide)

end RingBuffer

end Tm4cPilot.Rtt
