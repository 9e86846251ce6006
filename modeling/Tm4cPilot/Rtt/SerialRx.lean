import Mathlib.Data.List.DropRight
import Tm4cPilot.Lib.Ring
import Tm4cPilot.Lib.Run

/-!
# The receive buffer of a serial device

The receive interrupt stores bytes in a software FIFO, and `rt_serial_read` takes them out one by
one, each with interrupts disabled.
-/

namespace Tm4cPilot.Rtt.SerialRx

open List Function Nat

/-- A byte, with its place in the stream for the statements. -/
structure Received where
  ch : UInt8
  position : ℕ
  deriving DecidableEq

/-- `struct rt_serial_rx_fifo`. -/
structure RxFifo where
  buffer : ℕ → Received
  putIndex : UInt16
  getIndex : UInt16
  isFull : Bool

/-- `serial->config.bufsz`. -/
structure Config where
  bufsz : UInt16
  two_le : 2 ≤ bufsz.toNat

namespace Config

variable (c : Config)

/-- The next index. -/
def advance (i : UInt16) : UInt16 := if c.bufsz ≤ i + 1 then 0 else i + 1

/-- The section of `rt_hw_serial_isr`. -/
def store (f : RxFifo) (x : Received) : RxFifo :=
  let put := c.advance f.putIndex
  let buffer := update f.buffer f.putIndex.toNat x
  -- the next position is the read index: that character is discarded
  if put = f.getIndex then ⟨buffer, put, c.advance f.getIndex, true⟩
  else ⟨buffer, put, f.getIndex, f.isFull⟩

/-- The section of `_serial_int_rx`, unless there is no data. -/
def fetch (f : RxFifo) : Option (Received × RxFifo) :=
  if f.getIndex = f.putIndex ∧ f.isFull = false then none
  else
    some (f.buffer f.getIndex.toNat, { f with getIndex := c.advance f.getIndex, isFull := false })

/-- The length given to `rx_indicate`. -/
def rxLength (f : RxFifo) : ℕ :=
  if f.getIndex ≤ f.putIndex then f.putIndex.toNat - f.getIndex.toNat
  else c.bufsz.toNat - (f.getIndex.toNat - f.putIndex.toNat)

/-- What `_serial_int_rx` returns if nothing comes in between. -/
def serialIntRx : ℕ → RxFifo → List Received
  | 0, _ => []
  | length + 1, f =>
    match c.fetch f with
    | none => []
    | some (x, f) => x :: serialIntRx length f

/-- The bytes that can be read. -/
def readable (f : RxFifo) : List Received := c.serialIntRx c.bufsz.toNat f

end Config

/-! ## The buffer -/

/-- The FIFO holds these bytes. -/
structure Contains (c : Config) (f : RxFifo) (q : List Received) : Prop where
  holds : Ring.Holds c.bufsz.toNat f.buffer f.getIndex.toNat f.putIndex.toNat q
  length_lt : q.length < c.bufsz.toNat
  isFull : f.isFull = true → q ≠ []

variable {c : Config} {f : RxFifo} {q : List Received} {x : Received}

theorem Config.toNat_advance {i : UInt16} (h : i.toNat < c.bufsz.toNat) :
    (c.advance i).toNat = Ring.next c.bufsz.toNat i.toNat := by
  have hbound := c.bufsz.toNat_lt
  have hnext : (i + 1).toNat = i.toNat + 1 := by
    exact mod_eq_of_lt (by change i.toNat + 1 < 65536; omega)
  simp only [advance, Ring.next, UInt16.le_iff_toNat_le, hnext]
  split
  · rfl
  · exact hnext

namespace Contains

theorem getIndex_lt (h : Contains c f q) : f.getIndex.toNat < c.bufsz.toNat := by
  have := h.holds.first_lt
  have := c.two_le
  omega

theorem putIndex_lt (h : Contains c f q) : f.putIndex.toNat < c.bufsz.toNat :=
  h.holds.last_lt (by have := c.two_le; omega)

theorem index_eq_iff (h : Contains c f q) : f.getIndex = f.putIndex ↔ q = [] := by
  have hlt := h.length_lt
  rw [← UInt16.toNat_inj, eq_comm, h.holds.last_eq_first_iff (by omega), ← length_eq_zero_iff]
  omega

theorem fetch_nil (h : Contains c f []) : c.fetch f = none := by
  have hfull : f.isFull = false := by
    cases hfull : f.isFull with
    | false => rfl
    | true => exact absurd rfl (h.isFull hfull)
  rw [Config.fetch, if_pos ⟨h.index_eq_iff.mpr rfl, hfull⟩]

theorem fetch_cons (h : Contains c f (x :: q)) :
    ∃ f', c.fetch f = some (x, f') ∧ Contains c f' q := by
  have hdata : ¬ (f.getIndex = f.putIndex ∧ f.isFull = false) := fun hempty =>
    cons_ne_nil x q (h.index_eq_iff.mp hempty.1)
  have hlt := h.length_lt
  obtain ⟨hcell, hrest⟩ := h.holds.pop
  rw [← Config.toNat_advance h.getIndex_lt] at hrest
  rw [Config.fetch, if_neg hdata, hcell]
  refine ⟨_, rfl, hrest, ?_, fun hfull => absurd hfull Bool.false_ne_true⟩
  rw [length_cons] at hlt
  omega

theorem store (h : Contains c f q) (x : Received) :
    Contains c (c.store f x) ((q ++ [x]).rtake (c.bufsz.toNat - 1)) := by
  have htwo := c.two_le
  have hlt := h.length_lt
  have hpush := h.holds.push hlt x
  rw [← Config.toNat_advance h.putIndex_lt] at hpush
  have hlength : (q ++ [x]).length = q.length + 1 := length_append
  have hmeet : c.advance f.putIndex = f.getIndex ↔ q.length + 1 = c.bufsz.toNat := by
    rw [← UInt16.toNat_inj, hpush.last_eq_first_iff (by omega), hlength]
    omega
  rw [Config.store]
  by_cases hfull : q.length + 1 = c.bufsz.toNat
  · obtain ⟨y, ys, hys⟩ := exists_cons_of_length_eq_add_one hlength
    rw [hys] at hpush hlength ⊢
    rw [length_cons, add_right_cancel_iff] at hlength
    have hpop := hpush.pop.2
    rw [← Config.toNat_advance h.getIndex_lt] at hpop
    have hnewest : (y :: ys).rtake (c.bufsz.toNat - 1) = ys := by
      rw [rtake, length_cons, show ys.length + 1 - (c.bufsz.toNat - 1) = 1 by omega]
      rfl
    rw [if_pos (hmeet.mpr hfull), hnewest]
    refine ⟨hpop, by omega, fun _ hnil => ?_⟩
    rw [hnil, length_nil] at hlength
    omega
  · have hnewest : (q ++ [x]).rtake (c.bufsz.toNat - 1) = q ++ [x] := by
      rw [rtake, hlength, Nat.sub_eq_zero_of_le (by omega), drop_zero]
    rw [if_neg (mt hmeet.mp hfull), hnewest]
    exact ⟨hpush, by omega, fun _ => by simp⟩

theorem serialIntRx_eq (h : Contains c f q) {n : ℕ} (hn : q.length ≤ n) :
    c.serialIntRx n f = q := by
  induction q generalizing f n with
  | nil =>
    cases n with
    | zero => rfl
    | succ n => rw [Config.serialIntRx, h.fetch_nil]
  | cons x q ih =>
    obtain ⟨n, rfl⟩ : ∃ m, n = m + 1 := ⟨n - 1, by rw [length_cons] at hn; omega⟩
    obtain ⟨f', hfetch, hrest⟩ := h.fetch_cons
    rw [Config.serialIntRx, hfetch]
    exact congrArg (x :: ·) (ih hrest (by rwa [length_cons, add_le_add_iff_right] at hn))

theorem readable_eq (h : Contains c f q) : c.readable f = q := h.serialIntRx_eq h.length_lt.le

theorem rxLength_eq (h : Contains c f q) : c.rxLength f = q.length := by
  have hget := h.getIndex_lt
  have hlt := h.length_lt
  have hput := h.holds.last_eq
  simp only [Config.rxLength, UInt16.le_iff_toNat_le]
  by_cases hwrap : f.getIndex.toNat + q.length < c.bufsz.toNat
  · rw [mod_eq_of_lt hwrap] at hput
    rw [if_pos (by omega)]
    omega
  · rw [mod_eq_sub_mod (by omega), mod_eq_of_lt (by omega)] at hput
    rw [if_neg (by omega)]
    omega

end Contains

/-! ## The device and its readers -/

/-- A call of `rt_serial_read`: the lengths, and the bytes read. -/
structure Call where
  size : ℕ
  length : ℕ
  data : List UInt8

/-- The FIFO, the bytes received and read, and the calls. -/
structure Device (κ : Type*) where
  fifo : RxFifo
  received : List UInt8
  taken : List Received
  calls : κ → Option Call

inductive Event (κ : Type*) where
  | receive (ch : UInt8)
  | read (k : κ) (size : ℕ)
  /-- A thread in such a call makes the next round of the loop. -/
  | round (k : κ)

/-- The byte that comes with an event. -/
def Event.byte {κ : Type*} : Event κ → Option UInt8
  | .receive ch => some ch
  | .read _ _ => none
  | .round _ => none

namespace Device

variable {κ : Type*}

/-- The device when it is opened. -/
def opened : Device κ := ⟨⟨fun _ => ⟨0, 0⟩, 0, 0, false⟩, [], [], fun _ => none⟩

variable [DecidableEq κ]

def step (c : Config) (d : Device κ) : Event κ → Option (List UInt8) × Device κ
  | .receive ch =>
    (none, { d with
      fifo := c.store d.fifo ⟨ch, d.received.length⟩
      received := d.received ++ [ch] })
  | .read k size =>
    match d.calls k with
    | none => (none, { d with calls := update d.calls k (some ⟨size, size, []⟩) })
    | some _ => (none, d)
  | .round k =>
    match d.calls k with
    | none => (none, d)
    | some call =>
      match if call.length = 0 then none else c.fetch d.fifo with
      | none => (some call.data, { d with calls := update d.calls k none })
      | some (x, fifo) =>
        (none, { d with
          fifo := fifo
          taken := d.taken ++ [x]
          calls := update d.calls k
            (some ⟨call.size, call.length - 1, call.data ++ [x.ch]⟩) })

/-- The device after a run. -/
def after (c : Config) (events : List (Event κ)) : Device κ :=
  Run.run (fun d e => (d.step c e).2) opened events

omit [DecidableEq κ]

/-- The bytes received, with their places. -/
def stream (d : Device κ) : List Received := d.received.mapIdx fun i ch => ⟨ch, i⟩

/-- The place after the last byte read. -/
def mark (d : Device κ) : ℕ := (d.taken.getLast?.map fun x => x.position + 1).getD 0

/-- The bytes after the last one read that the buffer can hold. -/
def unread (c : Config) (d : Device κ) : ℕ := min (d.received.length - d.mark) (c.bufsz.toNat - 1)

/-- The bytes of a call are in order. -/
def Call.Fits (taken : List Received) (call : Call) : Prop :=
  call.data.length + call.length = call.size ∧ call.data.Sublist (taken.map Received.ch)

/-- What every event keeps. -/
structure Sound (c : Config) (d : Device κ) : Prop where
  contains : Contains c d.fifo (d.stream.rtake (d.unread c))
  mark_le : d.mark ≤ d.received.length
  taken : d.taken.Sublist (d.stream.take d.mark)
  kept : ∀ i (h : i < d.stream.length),
    d.stream[i] ∈ d.taken ∨ d.received.length ≤ i + d.unread c ∨
      i + c.bufsz.toNat ≤ d.received.length
  calls : ∀ k, ∀ call ∈ d.calls k, Call.Fits d.taken call

theorem length_stream (d : Device κ) : d.stream.length = d.received.length := length_mapIdx

theorem getElem_stream (d : Device κ) {i : ℕ} (h : i < d.stream.length) :
    d.stream[i].position = i := by simp [stream]

theorem sound_opened (c : Config) : Sound c (opened : Device κ) where
  contains := ⟨Ring.holds_nil _ _, by have := c.two_le; simp [stream, opened]; omega, nofun⟩
  mark_le := le_rfl
  taken := nil_sublist _
  kept _ h := by simp [stream, opened] at h
  calls := nofun

theorem rtake_rtake {α : Type*} (xs : List α) (m n : ℕ) :
    (xs.rtake m).rtake n = xs.rtake (min m n) := by
  rw [rtake, rtake, rtake, drop_drop, length_drop]
  congr 1
  omega

variable {d : Device κ}

variable {c : Config}

theorem Sound.receive (h : Sound c d) (ch : UInt8) :
    Sound c { d with
      fifo := c.store d.fifo ⟨ch, d.received.length⟩
      received := d.received ++ [ch] } := by
  let d' : Device κ := { d with
    fifo := c.store d.fifo ⟨ch, d.received.length⟩
    received := d.received ++ [ch] }
  have hmark : d'.mark = d.mark := rfl
  have hle := h.mark_le
  have hlength : d'.received.length = d.received.length + 1 := by
    rw [length_append, length_singleton]
  have hstream : d'.stream = d.stream ++ [⟨ch, d.received.length⟩] := mapIdx_concat
  have hunread : d'.unread c = min (d.unread c + 1) (c.bufsz.toNat - 1) := by
    rw [unread, unread, hmark, hlength]
    omega
  change Sound c d'
  refine ⟨?_, by omega, ?_, fun i hi => ?_, h.calls⟩
  · rw [hstream, hunread, ← rtake_rtake, rtake_concat_succ]
    exact h.contains.store _
  · rw [hstream, hmark, take_append_of_le_length (by rwa [length_stream])]
    exact h.taken
  · by_cases hold : i < d.stream.length
    · simp only [hstream, getElem_append_left hold]
      rcases h.kept i hold with hread | hnew | hlost
      · exact .inl hread
      · right
        omega
      · right
        omega
    · rw [length_stream] at hold
      right
      omega

theorem rtake_unread_eq_cons (hpos : 0 < d.unread c) :
    ∃ hlt : d.received.length - d.unread c < d.stream.length,
      d.stream.rtake (d.unread c) =
        d.stream[d.received.length - d.unread c] :: d.stream.rtake (d.unread c - 1) := by
  have hle : d.unread c ≤ d.received.length - d.mark := min_le_left _ _
  have hlt : d.received.length - d.unread c < d.stream.length := by
    rw [length_stream]
    omega
  refine ⟨hlt, ?_⟩
  rw [rtake, rtake, length_stream, drop_eq_getElem_cons hlt]
  congr 2
  omega

theorem Sound.fetch (h : Sound c d) {x : Received} {fifo : RxFifo}
    (hfetch : c.fetch d.fifo = some (x, fifo)) {calls : κ → Option Call}
    (hcalls : ∀ k, ∀ call ∈ calls k, Call.Fits (d.taken ++ [x]) call) :
    Sound c ⟨fifo, d.received, d.taken ++ [x], calls⟩ := by
  let d' : Device κ := ⟨fifo, d.received, d.taken ++ [x], calls⟩
  have hcontains := h.contains
  have hpos : 0 < d.unread c := by
    by_contra hnone
    rw [Nat.eq_zero_of_not_pos hnone, rtake_zero] at hcontains
    rw [hcontains.fetch_nil] at hfetch
    contradiction
  have hle : d.unread c ≤ d.received.length - d.mark := min_le_left _ _
  have hle' : d.unread c ≤ c.bufsz.toNat - 1 := min_le_right _ _
  obtain ⟨hlt, hcons⟩ := rtake_unread_eq_cons hpos
  rw [hcons] at hcontains
  obtain ⟨f', hsome, hrest⟩ := hcontains.fetch_cons
  obtain ⟨rfl, rfl⟩ : d.stream[d.received.length - d.unread c] = x ∧ f' = fifo := by
    simpa [hfetch, eq_comm] using hsome
  have hmark : d'.mark = d.received.length - d.unread c + 1 := by
    simp [d', mark, getElem_stream]
  have hunread : d'.unread c = d.unread c - 1 := by
    change min (d.received.length - _) _ = _
    omega
  have hstream : d'.stream = d.stream := rfl
  change Sound c d'
  refine ⟨by rwa [hstream, hunread], ?_, ?_, fun i hi => ?_, hcalls⟩
  · change _ ≤ d.received.length
    omega
  · rw [hmark, hstream, take_succ_eq_append_getElem hlt]
    refine (h.taken.trans ?_).append_right _
    exact take_sublist_take_left (by omega)
  · rcases h.kept i hi with hread | hnew | hlost
    · exact .inl (mem_append_left _ hread)
    · by_cases hthis : i = d.received.length - d.unread c
      · subst hthis
        exact .inl (mem_append_right _ (mem_singleton_self _))
      · refine .inr (.inl ?_)
        change d.received.length ≤ _
        omega
    · exact .inr (.inr hlost)

theorem Call.Fits.concat {taken : List Received} {call : Call} (h : Call.Fits taken call)
    (x : Received) : Call.Fits (taken ++ [x]) call := by
  refine ⟨h.1, h.2.trans ?_⟩
  rw [map_append]
  exact sublist_append_left _ _

variable [DecidableEq κ]

theorem forall_mem_update {calls : κ → Option Call} {P : Call → Prop}
    (h : ∀ k, ∀ call ∈ calls k, P call) (k : κ) {new : Option Call} (hnew : ∀ call ∈ new, P call) :
    ∀ k', ∀ call ∈ update calls k new k', P call := by
  intro k' call hcall
  by_cases hk : k' = k
  · subst hk
    rw [update_self] at hcall
    exact hnew call hcall
  · rw [update_of_ne hk] at hcall
    exact h k' call hcall

theorem Sound.update (h : Sound c d) (k : κ) {new : Option Call}
    (hnew : ∀ call ∈ new, Call.Fits d.taken call) :
    Sound c { d with calls := update d.calls k new } :=
  ⟨h.contains, h.mark_le, h.taken, h.kept, forall_mem_update h.calls k hnew⟩

theorem Sound.step (h : Sound c d) (e : Event κ) : Sound c (d.step c e).2 := by
  cases e with
  | receive ch => exact h.receive ch
  | read k size =>
    rw [Device.step]
    split
    · apply h.update k
      rintro _ ⟨⟩
      exact ⟨zero_add size, nil_sublist _⟩
    · exact h
  | round k =>
    rw [Device.step]
    split
    · exact h
    · next call hcall =>
      split
      · exact h.update k nofun
      · next x fifo hfetch =>
        obtain ⟨hlength, hfetch⟩ : call.length ≠ 0 ∧ c.fetch d.fifo = some (x, fifo) := by
          split at hfetch
          · contradiction
          · next hlength => exact ⟨hlength, hfetch⟩
        obtain ⟨hsize, hdata⟩ := h.calls k call hcall
        apply h.fetch hfetch
        apply forall_mem_update (fun k call hcall => (h.calls k call hcall).concat x)
        rintro _ ⟨⟩
        constructor
        · rw [length_append, length_singleton]
          change call.data.length + 1 + (call.length - 1) = call.size
          omega
        · rw [map_append]
          exact hdata.append_right _

theorem Sound.returns (h : Sound c d) {k : κ} {data : List UInt8}
    (hreturn : (d.step c (.round k)).1 = some data) :
    ∃ call ∈ d.calls k, data.Sublist (d.taken.map Received.ch) ∧
      (data.length ≠ call.size → d.unread c = 0) := by
  rw [Device.step] at hreturn
  split at hreturn
  · contradiction
  · next call hcall =>
    obtain ⟨hsize, hdata⟩ := h.calls k call hcall
    split at hreturn
    · next hnone =>
      obtain rfl : call.data = data := Option.some.inj hreturn
      refine ⟨call, hcall, hdata, fun hfew => ?_⟩
      rw [if_neg (by omega)] at hnone
      by_contra hpos
      obtain ⟨hlt, hcons⟩ := rtake_unread_eq_cons (pos_of_ne_zero hpos)
      have hcontains := h.contains
      rw [hcons] at hcontains
      obtain ⟨f', hsome, -⟩ := hcontains.fetch_cons
      rw [hnone] at hsome
      contradiction
    · contradiction

theorem sound_after (c : Config) (events : List (Event κ)) : Sound c (after c events) :=
  Run.run_invariant (I := Sound c) (fun _ e h => h.step e) (sound_opened c) events

theorem rxLength_after (c : Config) (events : List (Event κ)) :
    c.rxLength (after c events).fifo = (c.readable (after c events).fifo).length := by
  have hcontains := (sound_after c events).contains
  rw [hcontains.rxLength_eq, hcontains.readable_eq]

end Device

end Tm4cPilot.Rtt.SerialRx
