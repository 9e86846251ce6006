import Tm4cPilot.Px4Storage.Model

/-!
# The race on the dirty mask

`write_block` and `_timer_tick` run in two threads and change the mask without a lock.  The comment
on `_mark_dirty` says that a lost race never makes a line not be written; but the bit is lost if the
main thread stores it while the storage thread holds an older copy of the word for another line.
-/

namespace Tm4cPilot.Px4Storage

open Bitmask Option

/-! ## The two threads -/

/-- Where the main thread is in `write_block`, with the lines that are left. -/
inductive MainPc where
  | idle
  | copying (loc length : ℕ)
  | load (line last : ℕ)
  | store (line last : ℕ) (w : BitVec 32)

/-- Where the storage thread is in `_timer_tick`. -/
inductive TickPc where
  | idle
  | scan (line : ℕ)
  | clearLoad (line : ℕ)
  | clearStore (line : ℕ) (w : BitVec 32)
  | begin (line : ℕ)
  | writing (line : ℕ)
  | setLoad (line : ℕ)
  | setStore (line : ℕ) (w : BitVec 32)

/-- The mask, the threads, and the lines modified since their last write began. -/
structure Race where
  mask : Bitmask
  main : MainPc
  tick : TickPc
  modified : Finset ℕ

/-- A step of the main thread. -/
inductive MainStep : Race → Race → Prop
  | start {m t p} (loc length : ℕ) (h : loc + length ≤ storageSize) :
      MainStep ⟨m, .idle, t, p⟩ ⟨m, .copying loc length, t, p⟩
  | copy {m t p loc length} (a : ℕ) (h₁ : loc ≤ a) (h₂ : a < loc + length) :
      MainStep ⟨m, .copying loc length, t, p⟩
        ⟨m, .copying loc length, t, insert (a / lineSize) p⟩
  | copied {m t p loc length} :
      MainStep ⟨m, .copying loc length, t, p⟩
        ⟨m, .load (loc / lineSize) ((loc + length) / lineSize), t, p⟩
  | load {m t p line last} :
      MainStep ⟨m, .load line last, t, p⟩ ⟨m, .store line last (m.load line), t, p⟩
  | store {m t p line last w} :
      MainStep ⟨m, .store line last w, t, p⟩
        ⟨m.store line (Bitmask.setWord w line),
          if line < last then .load (line + 1) last else .idle, t, p⟩

/-- A step of the storage thread. -/
inductive TickStep : Race → Race → Prop
  | wake {m pc p} (h : m.empty = false) : TickStep ⟨m, pc, .idle, p⟩ ⟨m, pc, .scan 0, p⟩
  | miss {m pc p line} (h : line < numLines) (h' : m.get line = false) :
      TickStep ⟨m, pc, .scan line, p⟩ ⟨m, pc, .scan (line + 1), p⟩
  | hit {m pc p line} (h : line < numLines) (h' : m.get line = true) :
      TickStep ⟨m, pc, .scan line, p⟩ ⟨m, pc, .clearLoad line, p⟩
  | none {m pc p} : TickStep ⟨m, pc, .scan numLines, p⟩ ⟨m, pc, .idle, p⟩
  | clearLoad {m pc p line} :
      TickStep ⟨m, pc, .clearLoad line, p⟩ ⟨m, pc, .clearStore line (m.load line), p⟩
  | clearStore {m pc p line w} :
      TickStep ⟨m, pc, .clearStore line w, p⟩
        ⟨m.store line (Bitmask.clearWord w line), pc, .begin line, p⟩
  | begin {m pc p line} : TickStep ⟨m, pc, .begin line, p⟩ ⟨m, pc, .writing line, p.erase line⟩
  | done {m pc p line} : TickStep ⟨m, pc, .writing line, p⟩ ⟨m, pc, .idle, p⟩
  | failed {m pc p line} : TickStep ⟨m, pc, .writing line, p⟩ ⟨m, pc, .setLoad line, p⟩
  | setLoad {m pc p line} :
      TickStep ⟨m, pc, .setLoad line, p⟩ ⟨m, pc, .setStore line (m.load line), p⟩
  | setStore {m pc p line w} :
      TickStep ⟨m, pc, .setStore line w, p⟩ ⟨m.store line (Bitmask.setWord w line), pc, .idle, p⟩

/-- Interleavings from idle threads and dirty modified lines; `allowed` restricts the main thread.
-/
inductive Reaches (allowed : Race → Prop) : Race → Prop
  | start {m p} (h : ∀ line ∈ p, m.get line = true) : Reaches allowed ⟨m, .idle, .idle, p⟩
  | main {r r'} : Reaches allowed r → allowed r → MainStep r r' → Reaches allowed r'
  | tick {r r'} : Reaches allowed r → TickStep r r' → Reaches allowed r'

/-- The copy of the word of a line. -/
def TickPc.held (line : ℕ) : TickPc → Option (BitVec 32)
  | .clearStore line' w | .setStore line' w =>
      if line' ≠ line ∧ line' / 32 = line / 32 then some w else none
  | _ => none

/-- At a store of the main thread the storage thread holds no word for another line without that
bit. -/
def StoreSeen (r : Race) : Prop :=
  match r.main with
  | .store line _ _ => ∀ w, r.tick.held line = some w → Bitmask.inWord w line = true
  | _ => True

/-! ## The invariant -/

/-- The main thread is going to set the bit. -/
def MainPc.WillSet (line : ℕ) : MainPc → Prop
  | .idle => False
  | .copying loc length => loc / lineSize ≤ line ∧ line ≤ (loc + length) / lineSize
  | .load first last | .store first last _ => first ≤ line ∧ line ≤ last

/-- The storage thread is going to write the line. -/
def TickPc.WillWrite (line : ℕ) : TickPc → Prop
  | .clearLoad line' | .clearStore line' _ | .begin line' => line' = line
  | _ => False

/-- The word about to be stored has the bit. -/
def MainPc.Keeps (line : ℕ) : MainPc → Prop
  | .store line' _ w => line / 32 = line' / 32 → Bitmask.inWord w line = true
  | _ => True

/-- The same for the storage thread. -/
def TickPc.Keeps (line : ℕ) (t : TickPc) : Prop :=
  ∀ w, t.held line = some w → Bitmask.inWord w line = true

/-- The bit is going to be set, or the line written, or the bit stays set. -/
def Race.Covered (r : Race) (line : ℕ) : Prop :=
  r.main.WillSet line ∨ r.tick.WillWrite line ∨
    (r.mask.get line = true ∧ r.main.Keeps line ∧ r.tick.Keeps line)

/-- Modified lines are covered. -/
def Race.Inv (r : Race) : Prop := ∀ line ∈ r.modified, r.Covered line

section Steps

variable {m : Bitmask} {line line' : ℕ} {w : BitVec 32} {r r' : Race}

theorem get_store_setWord (hget : m.get line = true)
    (hw : line / 32 = line' / 32 → inWord w line = true) :
    (m.store line' (setWord w line')).get line = true := by
  by_cases hword : line / 32 = line' / 32
  · rw [get_store_of_eq m hword, inWord_setWord hword, hw hword, Bool.or_true]
  · rw [get_store_of_ne m hword, hget]

theorem get_store_setWord_self : (m.store line (setWord w line)).get line = true := by
  rw [get_store_of_eq m rfl, inWord_setWord rfl, decide_eq_true rfl, Bool.true_or]

theorem get_store_clearWord (hget : m.get line = true) (hne : line ≠ line')
    (hw : line / 32 = line' / 32 → inWord w line = true) :
    (m.store line' (clearWord w line')).get line = true := by
  by_cases hword : line / 32 = line' / 32
  · rw [get_store_of_eq m hword, inWord_clearWord hword, hw hword,
      decide_eq_false hne, Bool.not_false, Bool.and_true]
  · rw [get_store_of_ne m hword, hget]

theorem MainStep.inv (st : MainStep r r') (hs : StoreSeen r) (h : r.Inv) : r'.Inv := by
  cases st with
  | start loc length hr =>
    intro line hl
    rcases h line hl with hset | hwrite | ⟨hget, -, hkeep⟩
    · exact hset.elim
    · exact .inr (.inl hwrite)
    · exact .inr (.inr ⟨hget, trivial, hkeep⟩)
  | copy a h₁ h₂ =>
    intro line hl
    rcases Finset.mem_insert.1 hl with rfl | hl
    · exact .inl ⟨Nat.div_le_div_right h₁, Nat.div_le_div_right h₂.le⟩
    · exact h line hl
  | copied => exact h
  | load =>
    intro line hl
    rcases h line hl with hset | hwrite | ⟨hget, -, hkeep⟩
    · exact .inl hset
    · exact .inr (.inl hwrite)
    · refine .inr (.inr ⟨hget, fun hword => ?_, hkeep⟩)
      rw [inWord_load _ hword]
      exact hget
  | @store m t p line' last w =>
    intro line hl
    have idle : (if line' < last then MainPc.load (line' + 1) last else .idle).Keeps line := by
      split_ifs <;> trivial
    rcases h line hl with ⟨hle, hlast⟩ | hwrite | ⟨hget, hkeep, hkeep'⟩
    · by_cases hline : line = line'
      · subst hline
        exact .inr (.inr ⟨get_store_setWord_self, idle, hs⟩)
      · refine .inl ?_
        change (if line' < last then MainPc.load (line' + 1) last else .idle).WillSet line
        rw [if_pos (by omega)]
        exact ⟨by omega, hlast⟩
    · exact .inr (.inl hwrite)
    · exact .inr (.inr ⟨get_store_setWord hget hkeep, idle, hkeep'⟩)

theorem keeps_of_held {t : TickPc} (hget : m.get line = true)
    (h : ∀ w, t.held line = some w → ∃ line', line / 32 = line' / 32 ∧ w = m.load line') :
    t.Keeps line := by
  intro w hw
  obtain ⟨line', hword, rfl⟩ := h w hw
  rw [inWord_load m hword, hget]

theorem TickStep.inv (st : TickStep r r') (h : r.Inv) : r'.Inv := by
  cases st with
  | wake | miss | hit | none | done | failed =>
    intro line hl
    rcases h line hl with hset | hwrite | ⟨hget, hkeep, -⟩
    · exact .inl hset
    · exact hwrite.elim
    · exact .inr (.inr ⟨hget, hkeep, fun w hw => by cases hw⟩)
  | @clearLoad m pc p line' =>
    intro line hl
    rcases h line hl with hset | hwrite | ⟨hget, hkeep, -⟩
    · exact .inl hset
    · exact .inr (.inl hwrite)
    · refine .inr (.inr ⟨hget, hkeep, keeps_of_held hget fun w hw => ?_⟩)
      simp only [TickPc.held, ite_none_right_eq_some, some.injEq] at hw
      exact ⟨line', hw.1.2.symm, hw.2.symm⟩
  | @clearStore m pc p line' w =>
    intro line hl
    by_cases hline : line' = line
    · exact .inr (.inl hline)
    · rcases h line hl with hset | hwrite | ⟨hget, hkeep, hkeep'⟩
      · exact .inl hset
      · exact absurd hwrite hline
      · refine .inr (.inr ⟨get_store_clearWord hget (Ne.symm hline) fun hword => ?_, hkeep,
          fun w hw => by cases hw⟩)
        exact hkeep' w (if_pos ⟨hline, hword.symm⟩)
  | @begin m pc p line' =>
    intro line hl
    obtain ⟨hne, hl⟩ := Finset.mem_erase.1 hl
    rcases h line hl with hset | hwrite | ⟨hget, hkeep, -⟩
    · exact .inl hset
    · exact absurd hwrite hne.symm
    · exact .inr (.inr ⟨hget, hkeep, fun w hw => by cases hw⟩)
  | @setLoad m pc p line' =>
    intro line hl
    rcases h line hl with hset | hwrite | ⟨hget, hkeep, -⟩
    · exact .inl hset
    · exact hwrite.elim
    · refine .inr (.inr ⟨hget, hkeep, keeps_of_held hget fun w hw => ?_⟩)
      simp only [TickPc.held, ite_none_right_eq_some, some.injEq] at hw
      exact ⟨line', hw.1.2.symm, hw.2.symm⟩
  | @setStore m pc p line' w =>
    intro line hl
    rcases h line hl with hset | hwrite | ⟨hget, hkeep, hkeep'⟩
    · exact .inl hset
    · exact hwrite.elim
    · refine .inr (.inr ⟨?_, hkeep, fun w hw => by cases hw⟩)
      by_cases hline : line' = line
      · subst hline
        exact get_store_setWord_self
      · exact get_store_setWord hget fun hword => hkeep' w (if_pos ⟨hline, hword.symm⟩)

theorem Reaches.inv (h : Reaches StoreSeen r) : r.Inv := by
  induction h with
  | start h => exact fun line hl => .inr (.inr ⟨h line hl, trivial, fun w hw => by cases hw⟩)
  | main _ hs st ih => exact st.inv hs ih
  | tick _ st ih => exact st.inv ih

end Steps

/-- If the main thread stores no bit behind the back of the storage thread, modified lines are dirty
when both are idle. -/
theorem modified_dirty_of_idle {r : Race} (h : Reaches StoreSeen r) (hm : r.main = .idle)
    (ht : r.tick = .idle) : ∀ line ∈ r.modified, r.mask.get line = true := by
  intro line hl
  rcases h.inv line hl with hset | hwrite | ⟨hget, -⟩
  · rw [hm] at hset
    exact hset.elim
  · rw [ht] at hwrite
    exact hwrite.elim
  · exact hget

/-- The storage thread loads the word to clear bit 0, the main thread modifies line 1, whose bit is
set, and the word is stored with that bit. -/
theorem modified_dirty_of_idle_interleaved :
    ∃ r, Reaches StoreSeen r ∧ r.modified = {1} ∧ r.mask.get 0 = false ∧
      ∀ line ∈ r.modified, r.mask.get line = true := by
  have h₀ : Reaches StoreSeen ⟨((Bitmask.ofNumbits numLines).set 0).set 1, .idle, .idle, {0}⟩ :=
    .start (by decide)
  have h₁ := h₀.tick (.wake (by decide))
  have h₂ := h₁.tick (.hit (by decide) (by decide))
  have h₃ := h₂.main trivial (.start 512 1 (by decide))
  have h₄ := h₃.main trivial (.copy 512 (by decide) (by decide))
  have h₅ := h₄.main trivial .copied
  have h₆ := h₅.tick .clearLoad
  have h₇ := h₆.main trivial .load
  have h₈ := h₇.main (fun w hw => by cases hw; decide) .store
  have h₉ := h₈.tick .clearStore
  have h₁₀ := h₉.tick .begin
  have h₁₁ := h₁₀.tick .done
  exact ⟨_, h₁₁, by decide, by decide, modified_dirty_of_idle h₁₁ rfl rfl⟩

/-- The storage thread loads the word to clear bit 0, the main thread modifies line 1 and sets its
bit, and the word is stored without it. -/
theorem modified_clean_of_idle :
    ∃ r, Reaches (fun _ => True) r ∧ r.main = .idle ∧ r.tick = .idle ∧ 1 ∈ r.modified ∧
      r.mask.get 1 = false := by
  have h₀ : Reaches (fun _ => True) ⟨(Bitmask.ofNumbits numLines).set 0, .idle, .idle, ∅⟩ :=
    .start (by simp)
  have h₁ := h₀.tick (.wake (by decide))
  have h₂ := h₁.tick (.hit (by decide) (by decide))
  have h₃ := h₂.tick .clearLoad
  have h₄ := h₃.main trivial (.start 512 1 (by decide))
  have h₅ := h₄.main trivial (.copy 512 (by decide) (by decide))
  have h₆ := h₅.main trivial .copied
  have h₇ := h₆.main trivial .load
  have h₈ := h₇.main trivial .store
  have h₉ := h₈.tick .clearStore
  have h₁₀ := h₉.tick .begin
  have h₁₁ := h₁₀.tick .done
  exact ⟨_, h₁₁, rfl, rfl, by decide, by decide⟩

end Tm4cPilot.Px4Storage
