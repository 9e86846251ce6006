import Tm4cPilot.Lib.Run

/-!
# Reassembly of RTCM data

`AP_GPS::handle_gps_rtcm_data` collects the fragments of a message, and injects it once it has them
all.
-/

namespace Tm4cPilot.Gps.Rtcm

open List Run UInt8

/-- `MAVLINK_MSG_GPS_RTCM_DATA_FIELD_DATA_LEN`. -/
def fieldLen : ℕ := 180

/-- `mavlink_gps_rtcm_data_t`. -/
structure Packet where
  flags : UInt8
  len : UInt8
  data : ℕ → UInt8

/-- `rtcm_buffer`. -/
structure Buffer where
  fragmentsReceived : BitVec 4
  sequence : ℕ
  fragmentCount : ℕ
  totalLength : ℕ
  buffer : ℕ → UInt8

/-- What `inject_data` is called with. -/
def block (data : ℕ → UInt8) (len : ℕ) : List UInt8 := (range len).map data

namespace Buffer

/-- The buffer after `calloc` and after each `memset`. -/
def zero : Buffer := ⟨0, 0, 0, 0, fun _ => 0⟩

/-- Discard the fragments that conflict with the new one. -/
def restart (b : Buffer) (fragment sequence : ℕ) : Buffer :=
  if b.fragmentsReceived ≠ 0 ∧
      (b.sequence ≠ sequence ∨ b.fragmentsReceived &&& 1#4 <<< fragment ≠ 0) then zero
  else b

/-- A fragment is copied to the buffer. -/
def add (b : Buffer) (fragment sequence len : ℕ) (data : ℕ → UInt8) : Buffer :=
  let received := b.fragmentsReceived ||| 1#4 <<< fragment
  { sequence
    fragmentsReceived := received
    buffer := fun a =>
      if fieldLen * fragment ≤ a ∧ a < fieldLen * fragment + len then data (a - fieldLen * fragment)
      else b.buffer a
    fragmentCount :=
      if len < fieldLen then fragment + 1 else if received = 0x0F then 4 else b.fragmentCount
    totalLength :=
      if len < fieldLen then fieldLen * fragment + len
      else if received = 0x0F then fieldLen * 4 else b.totalLength }

/-- Inject the data if all fragments are there. -/
def finish (b : Buffer) : Option (List UInt8) × Buffer :=
  if b.fragmentCount ≠ 0 ∧ b.fragmentsReceived.toNat = 2 ^ b.fragmentCount - 1 then
    (some (block b.buffer b.totalLength), zero)
  else (none, b)

end Buffer

/-- `handle_gps_rtcm_data`; does `calloc` have memory? -/
def handleGpsRtcmData (rtcmBuffer : Option Buffer) (memory : Bool) (packet : Packet) :
    Option (List UInt8) × Option Buffer :=
  if fieldLen < packet.len.toNat then (none, rtcmBuffer)
  else if packet.flags.toNat % 2 = 0 then (some (block packet.data packet.len.toNat), rtcmBuffer)
  else
    match rtcmBuffer.or (if memory then some .zero else none) with
    | none => (none, none)
    | some b =>
      let fragment := packet.flags.toNat / 2 % 4
      let sequence := packet.flags.toNat / 8 % 32
      let (injected, b) :=
        ((b.restart fragment sequence).add fragment sequence packet.len.toNat packet.data).finish
      (injected, some b)

/-- A message of an RTCM stream. -/
structure Message where
  bytes : List UInt8
  pos : 0 < bytes.length
  le : bytes.length ≤ 720

namespace Message

variable (m : Message)

/-- Only a message of four full fragments has no short one. -/
abbrev full : Bool := m.bytes.length = 720

/-- The number of its packets. -/
def fragments : ℕ := if m.full then 4 else m.bytes.length / fieldLen + 1

/-- The length of a fragment. -/
def fragmentLen (fragment : ℕ) : ℕ := min fieldLen (m.bytes.length - fieldLen * fragment)

/-- The bytes of a fragment. -/
def data (fragment i : ℕ) : UInt8 := m.bytes.getD (fieldLen * fragment + i) 0

/-- A fragment in its packet. -/
def packet (number fragment : ℕ) : Packet where
  flags := UInt8.ofNat (1 + 2 * fragment + 8 * (number % 32))
  len := UInt8.ofNat (m.fragmentLen fragment)
  data := m.data fragment

theorem fragments_le : m.fragments ≤ 4 := by
  have := m.le
  simp only [fragments, fieldLen, full, decide_eq_true_eq]
  split_ifs <;> omega

theorem fragmentLen_lt_iff {fragment : ℕ} (valid : fragment < m.fragments) :
    m.fragmentLen fragment < fieldLen ↔ m.full = false ∧ fragment + 1 = m.fragments := by
  simp only [fragmentLen, fragments, fieldLen, full, decide_eq_true_eq, decide_eq_false_iff_not] at *
  split_ifs at * <;> omega

end Message

/-- The arrival of a fragment. -/
structure Delivery where
  number : ℕ
  fragment : ℕ
  memory : Bool

/-- The fragment is handled. -/
def deliver (messages : ℕ → Message) (s : Option Buffer) (d : Delivery) :
    Option (List UInt8) × Option Buffer :=
  handleGpsRtcmData s d.memory ((messages d.number).packet d.number d.fragment)

/-- What is injected when a packet arrives is its message. -/
def InjectsMessage (messages : ℕ → Message) (s : Option Buffer) (d : Delivery) : Prop :=
  ∀ block ∈ (deliver messages s d).1, block = (messages d.number).bytes

/-- Packets come in the order of their messages, one of any 31. -/
structure Linked (messages : ℕ → Message) (ds : List Delivery) : Prop where
  sent : ∀ d ∈ ds, d.fragment < (messages d.number).fragments
  ordered : (ds.map (·.number)).IsChain fun a b => a ≤ b ∧ b ≤ a + 31

/-- No fragment comes after a short fourth one. -/
def ShortLast (messages : ℕ → Message) (s : Option Buffer) (d : Delivery) : Prop :=
  (messages d.number).full = false → d.fragment ≠ 3 →
    ∀ b ∈ s, b.sequence = d.number % 32 → b.fragmentsReceived.getLsbD 3 = false

/-! ## The fragments in the buffer -/

/-- `fragment_count` after these fragments of a message of `n`. -/
def known (full : Bool) (n : ℕ) (received : BitVec 4) : ℕ :=
  if !full && received.getLsbD (n - 1) then n else 0

theorem and_ne_zero_iff : ∀ r : BitVec 4, ∀ j < 4, r &&& 1#4 <<< j ≠ 0 ↔ r.getLsbD j := by decide

theorem getLsbD_or_bit (r : BitVec 4) {j : ℕ} (small : j < 4) (i : ℕ) :
    (r ||| 1#4 <<< j).getLsbD i ↔ i = j ∨ r.getLsbD i := by
  by_cases le : 4 ≤ i
  · simp only [BitVec.getLsbD_of_ge _ _ le, Bool.false_eq_true, or_false, false_iff]
    omega
  · revert r
    interval_cases i <;> interval_cases j <;> decide

theorem toNat_eq_iff : ∀ r : BitVec 4, ∀ n ≤ 4,
    r.toNat = 2 ^ n - 1 ↔ ∀ j < 4, r.getLsbD j = decide (j < n) := by
  decide

/-- The same once another fragment is there. -/
def knownWith (full : Bool) (n : ℕ) (received : BitVec 4) (fragment : ℕ) : ℕ :=
  if full = false ∧ fragment + 1 = n then fragment + 1
  else if received ||| 1#4 <<< fragment = 0x0F then 4 else known full n received

/-- The count is the number of fragments once all are there. -/
theorem knownWith_eq : ∀ (full : Bool) (r : BitVec 4) (n : Fin 5) (j : Fin 4), j.val < n →
    (full → n = 4) → (full = false → j ≠ 3 → r.getLsbD 3 = false) →
    ((r ||| 1#4 <<< j.val).toNat = 2 ^ n.val - 1 → knownWith full n r j = n) ∧
    ((r ||| 1#4 <<< j.val).toNat ≠ 2 ^ n.val - 1 →
      knownWith full n r j = known full n (r ||| 1#4 <<< j.val)) ∧
    (r ||| 1#4 <<< j.val = 0x0F → full ∨ j.val + 1 = n) := by
  decide +kernel

variable {m m' : Message} {number last fragment : ℕ} {b : Buffer}

/-- What the buffer has of a message. -/
structure Holds (m : Message) (number : ℕ) (b : Buffer) : Prop where
  cells : ∀ a < m.bytes.length, b.fragmentsReceived.getLsbD (a / fieldLen) →
    b.buffer a = m.bytes.getD a 0
  count : b.fragmentCount = known m.full m.fragments b.fragmentsReceived
  total : b.fragmentCount ≠ 0 → b.totalLength = m.bytes.length
  sequence : b.fragmentsReceived ≠ 0 → b.sequence = number % 32

theorem holds_of_empty (empty : b.fragmentsReceived = 0) (count : b.fragmentCount = 0) :
    Holds m number b where
  cells := by simp [empty]
  count := by simp [count, known, empty]
  total := absurd count
  sequence := absurd empty

theorem Holds.restart {messages : ℕ → Message} (h : Holds (messages last) last b)
    (le : last ≤ number) (near : number ≤ last + 31) (small : fragment < 4) :
    Holds (messages number) number (b.restart fragment (number % 32)) ∧
      (b.restart fragment (number % 32)).fragmentsReceived =
        if last = number ∧ ¬b.fragmentsReceived.getLsbD fragment then b.fragmentsReceived
        else 0 := by
  simp only [Buffer.restart, and_ne_zero_iff _ _ small]
  split_ifs with conflict same same
  · exact absurd conflict.2 (by simp [h.sequence conflict.1, same])
  · exact ⟨holds_of_empty rfl rfl, rfl⟩
  · exact ⟨same.1 ▸ h, rfl⟩
  · -- a buffer without conflict is of this message, or empty
    have empty : b.fragmentsReceived = 0 := by
      by_contra some
      have sequence := h.sequence some
      have this : last = number := by
        by_contra different
        exact conflict ⟨some, .inl (by omega)⟩
      exact same ⟨this, fun mem => conflict ⟨some, .inr mem⟩⟩
    exact ⟨holds_of_empty empty (by simp [h.count, known, empty]), empty⟩

theorem Holds.finish_add (h : Holds m number b) (valid : fragment < m.fragments)
    (short : m.full = false → fragment ≠ 3 → b.fragmentsReceived.getLsbD 3 = false) :
    let b' := b.add fragment (number % 32) (m.fragmentLen fragment) (m.data fragment)
    if b'.fragmentsReceived.toNat = 2 ^ m.fragments - 1 then b'.finish = (some m.bytes, .zero)
    else b'.finish = (none, b') ∧ Holds m number b' := by
  intro b'
  have le := m.fragments_le
  have small := valid.trans_le le
  have lenLt := m.fragmentLen_lt_iff valid
  obtain ⟨all, part, special⟩ := knownWith_eq m.full b.fragmentsReceived ⟨m.fragments, by omega⟩
    ⟨fragment, small⟩ valid (fun full => by simp [Message.fragments, full])
    fun full ne => short full (by simpa [Fin.ext_iff] using ne)
  have count : b'.fragmentCount = knownWith m.full m.fragments b.fragmentsReceived fragment := by
    simp only [b', Buffer.add, knownWith, ← h.count, lenLt]
  have total : b'.fragmentCount ≠ 0 → b'.totalLength = m.bytes.length := by
    simp only [b', Buffer.add]
    split_ifs with len received
    · obtain ⟨notFull, final⟩ := lenLt.mp len
      simp only [Message.fragmentLen, Message.fragments, notFull, fieldLen, Bool.false_eq_true,
        if_false] at len final ⊢
      omega
    · have full : m.full = true := by
        by_contra notFull
        exact len (lenLt.mpr ⟨Bool.eq_false_of_not_eq_true notFull,
          (special received).resolve_left notFull⟩)
      exact fun _ => (of_decide_eq_true full).symm
    · exact h.total
  have cells (a : ℕ) (lt : a < m.bytes.length)
      (mem : (b.fragmentsReceived ||| 1#4 <<< fragment).getLsbD (a / fieldLen)) :
      b'.buffer a = m.bytes.getD a 0 := by
    simp only [b', Buffer.add, Message.data]
    split_ifs with inside
    · rw [Nat.add_sub_cancel' inside.1]
    · refine h.cells a lt (((getLsbD_or_bit _ small _).mp mem).resolve_left fun same => inside ?_)
      simp only [Message.fragmentLen, fieldLen] at same ⊢
      omega
  split_ifs with whole
  · have known : b'.fragmentCount = m.fragments := count.trans (all whole)
    rw [Buffer.finish, if_pos ⟨by omega, by rw [known, whole]⟩, total (by omega), block]
    congr 2
    refine ext_getElem (by simp) fun a lt _ => ?_
    have bound : a < m.bytes.length := by simpa using lt
    have below : a / fieldLen < m.fragments := by
      simp only [Message.fragments, fieldLen, Message.full, decide_eq_true_eq]
      split_ifs <;> omega
    have mem := ((toNat_eq_iff _ _ le).mp whole _ (below.trans_le le)).trans (decide_eq_true below)
    simp [cells a bound mem, bound]
  · have count := count.trans (part whole)
    refine ⟨if_neg fun ⟨nonzero, received⟩ => whole ?_, cells, count, total, fun _ => rfl⟩
    rw [received, count, known,
      if_pos (by_contra fun unknown => nonzero (count.trans (if_neg unknown)))]

/-! ## Runs -/

variable {messages : ℕ → Message} {s : Option Buffer} {d : Delivery}

/-- The buffer has fragments of one message only. -/
def Ready (messages : ℕ → Message) (last : ℕ) (s : Option Buffer) : Prop :=
  ∀ b ∈ s, Holds (messages last) last b

/-- The flags of the buffer. -/
def received (s : Option Buffer) : BitVec 4 := s.elim 0 (·.fragmentsReceived)

/-- The fragments that are there when another one has arrived. -/
def receivedWith (last : ℕ) (s : Option Buffer) (d : Delivery) : BitVec 4 :=
  (if last = d.number ∧ ¬(received s).getLsbD d.fragment then received s else 0) |||
    1#4 <<< d.fragment

theorem deliver_eq (valid : d.fragment < (messages d.number).fragments) :
    deliver messages s d =
      (s.or (if d.memory then some .zero else none)).elim (none, none) fun b =>
        (((b.restart d.fragment (d.number % 32)).add d.fragment (d.number % 32)
          ((messages d.number).fragmentLen d.fragment)
          ((messages d.number).data d.fragment)).finish).map id some := by
  have small := valid.trans_le (messages d.number).fragments_le
  have lenLe : (messages d.number).fragmentLen d.fragment ≤ 180 := min_le_left ..
  have len : (UInt8.ofNat ((messages d.number).fragmentLen d.fragment)).toNat =
      (messages d.number).fragmentLen d.fragment := by
    rw [toNat_ofNat']
    omega
  have flags : (UInt8.ofNat (1 + 2 * d.fragment + 8 * (d.number % 32))).toNat =
      1 + 2 * d.fragment + 8 * (d.number % 32) := by
    rw [toNat_ofNat']
    omega
  simp only [deliver, handleGpsRtcmData, Message.packet, len, flags]
  rw [if_neg (by rw [fieldLen]; omega), if_neg (by omega),
    show (1 + 2 * d.fragment + 8 * (d.number % 32)) / 2 % 4 = d.fragment by omega,
    show (1 + 2 * d.fragment + 8 * (d.number % 32)) / 8 % 32 = d.number % 32 by omega]
  cases s.or (if d.memory then some .zero else none) <;> rfl

theorem Ready.deliver_cases (ready : Ready messages last s) (le : last ≤ d.number)
    (near : d.number ≤ last + 31) (valid : d.fragment < (messages d.number).fragments)
    (short : ShortLast messages s d) :
    d.memory = false ∧ deliver messages s d = (none, none) ∨
      if (receivedWith last s d).toNat = 2 ^ (messages d.number).fragments - 1 then
        deliver messages s d = (some (messages d.number).bytes, some .zero)
      else ∃ b, deliver messages s d = (none, some b) ∧ Holds (messages d.number) d.number b ∧
        b.fragmentsReceived = receivedWith last s d := by
  have small := valid.trans_le (messages d.number).fragments_le
  rw [deliver_eq valid]
  cases found : s.or (if d.memory then some .zero else none) with
  | none =>
    refine .inl ⟨?_, rfl⟩
    cases memory : d.memory <;> simp_all
  | some b =>
    -- a buffer from `calloc` has no fragments, so it holds those of any message
    obtain ⟨holds, same, mem⟩ : Holds (messages last) last b ∧
        received s = b.fragmentsReceived ∧ (b.fragmentsReceived ≠ 0 → b ∈ s) := by
      cases s with
      | some b' =>
        cases found
        exact ⟨ready _ rfl, rfl, fun _ => rfl⟩
      | none =>
        cases memory : d.memory <;> simp [memory] at found
        exact found ▸ ⟨holds_of_empty rfl rfl, rfl, absurd rfl⟩
    obtain ⟨restarted, before⟩ := holds.restart le near small
    have finished := restarted.finish_add valid fun notFull other => ?_
    · set b' := (b.restart d.fragment (d.number % 32)).add d.fragment (d.number % 32)
        ((messages d.number).fragmentLen d.fragment) ((messages d.number).data d.fragment)
      have mask : b'.fragmentsReceived = receivedWith last s d := by
        rw [receivedWith, same, ← before]
        rfl
      dsimp only at finished
      rw [mask] at finished
      right
      split_ifs at finished ⊢ with whole
      · exact congrArg (Prod.map id some) finished
      · exact ⟨b', congrArg (Prod.map id some) finished.1, finished.2, mask⟩
    · rw [before]
      split_ifs with this
      · by_contra bit
        have nonzero : b.fragmentsReceived ≠ 0 := fun empty => bit (by simp [empty])
        exact bit (short notFull other b (mem nonzero) (this.1 ▸ holds.sequence nonzero))
      · simp

/-- The buffer after a delivery. -/
def step (messages : ℕ → Message) (s : Option Buffer) (d : Delivery) : Option Buffer :=
  (deliver messages s d).2

theorem ready_step (ready : Ready messages last s) (le : last ≤ d.number)
    (near : d.number ≤ last + 31) (valid : d.fragment < (messages d.number).fragments)
    (short : ShortLast messages s d) :
    InjectsMessage messages s d ∧ Ready messages d.number (step messages s d) := by
  rw [InjectsMessage, step]
  rcases ready.deliver_cases le near valid short with ⟨-, lost⟩ | arrived
  · rw [lost]
    exact ⟨nofun, nofun⟩
  · split_ifs at arrived
    · rw [arrived]
      refine ⟨fun _ mem => (Option.some.inj mem).symm, ?_⟩
      rintro _ ⟨⟩
      exact holds_of_empty rfl rfl
    · obtain ⟨b, result, holds, -⟩ := arrived
      rw [result]
      refine ⟨nofun, ?_⟩
      rintro _ ⟨⟩
      exact holds

theorem ready_run {ds : List Delivery} (ready : Ready messages last s)
    (sent : ∀ d ∈ ds, d.fragment < (messages d.number).fragments)
    (ordered : (last :: ds.map (·.number)).IsChain fun a b => a ≤ b ∧ b ≤ a + 31)
    (short : Run.Along (step messages) (ShortLast messages) s ds) :
    Run.Along (step messages) (InjectsMessage messages) s ds ∧
      ∀ l ∈ (last :: ds.map (·.number)).getLast?,
        Ready messages l (run (step messages) s ds) := by
  induction ds generalizing s last with
  | nil =>
    refine ⟨trivial, ?_⟩
    rintro _ ⟨⟩
    exact ready
  | cons d ds ih =>
    rw [map_cons, isChain_cons_cons] at ordered
    obtain ⟨⟨le, near⟩, ordered⟩ := ordered
    obtain ⟨payload, ready'⟩ := ready_step ready le near (sent d mem_cons_self) short.1
    obtain ⟨rest, final⟩ :=
      ih ready' (fun e mem => sent e (mem_cons_of_mem d mem)) ordered short.2
    exact ⟨⟨payload, rest⟩, final⟩

theorem ready_run_none {ds : List Delivery} (linked : Linked messages ds)
    (short : Run.Along (step messages) (ShortLast messages) none ds) :
    Run.Along (step messages) (InjectsMessage messages) none ds ∧
      ∀ l ∈ (ds.map (·.number)).getLast?, Ready messages l (run (step messages) none ds) := by
  cases ds with
  | nil => exact ⟨trivial, nofun⟩
  | cons d ds =>
    have ready : Ready messages d.number none := nofun
    exact ready_run ready linked.sent
      (isChain_cons_cons.mpr ⟨⟨le_rfl, Nat.le_add_right ..⟩, linked.ordered⟩) short

theorem injected_of_missing {own : List Delivery} (ready : Ready messages last s)
    (le : last ≤ number) (near : number ≤ last + 31) (nonempty : own ≠ [])
    (same : ∀ d ∈ own, d.number = number ∧ d.memory = true)
    (distinct : (own.map (·.fragment)).Nodup) (here : ∀ j, j < (messages number).fragments ↔
    j ∈ own.map (·.fragment) ∨ last = number ∧ (received s).getLsbD j)
    (missing : ∀ j ∈ own.map (·.fragment), ¬(last = number ∧ (received s).getLsbD j))
    (short : Run.Along (step messages) (ShortLast messages) s own) :
    (replies (deliver messages) s own).reduceOption = [(messages number).bytes] := by
  induction own generalizing s last with
  | nil => exact absurd rfl nonempty
  | cons d own ih =>
    obtain ⟨rfl, memory⟩ := same d mem_cons_self
    have valid := (here d.fragment).mpr (.inl mem_cons_self)
    have small := valid.trans_le (messages d.number).fragments_le
    obtain ⟨new, distinct⟩ := nodup_cons.mp distinct
    have bit (j : ℕ) : (receivedWith last s d).getLsbD j ↔
        j = d.fragment ∨ last = d.number ∧ (received s).getLsbD j := by
      have absent := missing d.fragment mem_cons_self
      rw [receivedWith, getLsbD_or_bit _ small]
      split_ifs with this
      · simp [this.1]
      · have other : last ≠ d.number := fun equal => this ⟨equal, fun found => absent ⟨equal, found⟩⟩
        simp [other]
    have here' (j : ℕ) : j < (messages d.number).fragments ↔
        j ∈ own.map (·.fragment) ∨ (receivedWith last s d).getLsbD j := by
      rw [here, bit, map_cons, mem_cons]
      tauto
    have missing' (j : ℕ) (mem : j ∈ own.map (·.fragment)) :
        ¬(receivedWith last s d).getLsbD j := by
      rw [bit, not_or]
      exact ⟨fun equal => new (by rwa [equal] at mem), missing j (mem_cons_of_mem _ mem)⟩
    have whole := toNat_eq_iff (receivedWith last s d) _ (messages d.number).fragments_le
    rw [reduceOption_replies_cons]
    obtain ⟨lost, -⟩ | arrived := ready.deliver_cases le near valid short.1
    · simp [memory] at lost
    split_ifs at arrived with complete
    · obtain rfl : own = [] := by
        by_contra nonempty
        obtain ⟨e, mem⟩ := exists_mem_of_ne_nil own nonempty
        have lt := (here' e.fragment).mpr (.inl (mem_map_of_mem mem))
        have found := whole.mp complete _ (lt.trans_le (messages d.number).fragments_le)
        exact missing' _ (mem_map_of_mem mem) (found.trans (decide_eq_true lt))
      rw [arrived]
      rfl
    · obtain ⟨b, result, holds, marks⟩ := arrived
      have nonempty : own ≠ [] := by
        rintro rfl
        refine complete (whole.mpr fun j _ => ?_)
        have := here' j
        simp_all
      rw [result, Option.toList, nil_append]
      have short' := short.2
      rw [step, result] at short'
      refine ih ?_ (le_refl d.number) (by omega) nonempty
        (fun e mem => same e (mem_cons_of_mem d mem)) distinct ?_ ?_ short'
      · rintro _ ⟨⟩
        exact holds
      · simpa [received, marks] using here'
      · simpa [received, marks] using missing'

/-- Every injected block is the message of its last packet, and a message that arrives whole is
injected once. -/
theorem injected_eq_message (messages : ℕ → Message) (ds : List Delivery)
    (linked : Linked messages ds)
    (short : Run.Along (step messages) (ShortLast messages) none ds) :
    Run.Along (step messages) (InjectsMessage messages) none ds ∧
      ∀ number before own after, ds = before ++ own ++ after →
        (∀ d ∈ before ++ after, d.number ≠ number) →
        (∀ d ∈ own, d.number = number ∧ d.memory = true) →
        (own.map (·.fragment)).Perm (range (messages number).fragments) →
        (replies (deliver messages) (run (step messages) none before) own).reduceOption =
          [(messages number).bytes] := by
  refine ⟨(ready_run_none linked short).1, ?_⟩
  rintro number before own after rfl others same perm
  obtain ⟨sent, ordered⟩ := linked
  rw [along_append, along_append] at short
  have nonempty : own ≠ [] := by
    rintro rfl
    have := perm.length_eq
    simp only [map_nil, length_nil, length_range, Message.fragments] at this
    split_ifs at this
  have complete {last : ℕ} (ready : Ready messages last (run (step messages) none before))
      (le : last ≤ number) (near : number ≤ last + 31)
      (first : ∀ j, ¬(last = number ∧
        (received (run (step messages) none before)).getLsbD j)) :=
    injected_of_missing ready le near nonempty same (perm.nodup_iff.mpr nodup_range)
      (fun j => by rw [or_iff_left (first j), perm.mem_iff, mem_range]) (fun j _ => first j)
      short.1.2
  rw [map_append, isChain_append, map_append, isChain_append] at ordered
  cases latest : (before.map (·.number)).getLast? with
  | none =>
    obtain rfl : before = [] := by simpa using latest
    have ready : Ready messages number none := nofun
    exact complete ready le_rfl (by omega) (by simp [received])
  | some l =>
    obtain ⟨d, mem, rfl⟩ := mem_map.mp (mem_of_getLast? latest)
    obtain ⟨e, rest, rfl⟩ := exists_cons_of_ne_nil nonempty
    obtain ⟨le, near⟩ := ordered.1.2.2 d.number latest e.number rfl
    rw [(same e mem_cons_self).1] at le near
    have linked : Linked messages before := ⟨fun c mem => sent c (by simp [mem]), ordered.1.1⟩
    exact complete ((ready_run_none linked short.1.1).2 d.number latest) le near
      fun _ later => others d (mem_append_left after mem) later.1

/-- The second of three fragments is lost, and the next message, which comes in the reverse order,
is injected. -/
theorem injected_after_loss :
    let lost : Message := ⟨replicate 400 7, by rw [length_replicate]; decide,
      by rw [length_replicate]; decide⟩
    let m : Message := ⟨(range 200).map UInt8.ofNat, by rw [length_map, length_range]; decide,
      by rw [length_map, length_range]; decide⟩
    let messages : ℕ → Message := fun number => if number = 0 then lost else m
    let before : List Delivery := [⟨0, 2, true⟩, ⟨0, 0, true⟩]
    let own : List Delivery := [⟨1, 1, true⟩, ⟨1, 0, true⟩]
    received (run (step messages) none before) = 0b101 ∧
      Run.Along (step messages) (InjectsMessage messages) none (before ++ own) ∧
      (replies (deliver messages) (run (step messages) none before) own).reduceOption =
        [m.bytes] := by
  intro lost m messages before own
  have linked : Linked messages (before ++ own) := ⟨by decide +kernel, by simp [before, own]⟩
  have short : Run.Along (step messages) (ShortLast messages) none (before ++ own) :=
    ⟨fun _ _ => by simp, fun _ _ => by decide +kernel, fun _ _ => by decide +kernel,
      fun _ _ => by decide +kernel, trivial⟩
  have h := injected_eq_message messages (before ++ own) linked short
  refine ⟨by decide +kernel, h.1, ?_⟩
  exact h.2 1 before own [] (append_nil _).symm (by simp [before]) (by simp [own])
    (by decide +kernel)

/-- If the short fragment of 540 bytes is not the last to arrive, a block of 720 is injected. -/
theorem injected_too_long :
    let m : Message :=
      ⟨replicate 540 7, by rw [length_replicate]; decide,
        by rw [length_replicate]; decide⟩
    let ds : List Delivery := [⟨0, 3, true⟩, ⟨0, 0, true⟩, ⟨0, 1, true⟩, ⟨0, 2, true⟩]
    Linked (fun _ => m) ds ∧ (ds.map (·.fragment)).Perm (range m.fragments) ∧
      m.bytes.length = 540 ∧
      (replies (deliver fun _ => m) none ds).reduceOption.map length = [720] := by
  intro m ds
  have four : m.fragments = 4 := by decide +kernel
  exact ⟨⟨by simp [ds, four], by simp [ds]⟩, by rw [four]; decide, length_replicate,
    by decide +kernel⟩

end Tm4cPilot.Gps.Rtcm
