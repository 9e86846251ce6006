import Mathlib.Tactic

/-!
# The bitmask class

A set of bit numbers in 32 bit words.  `set` and `clear` are a `load` and a `store`.
-/

namespace Tm4cPilot

open BitVec Function

/-- The mask, of `numwords` words. -/
structure Bitmask where
  numwords : ℕ
  bits : ℕ → BitVec 32

namespace Bitmask

/-- A zeroed mask for `numbits` bits. -/
def ofNumbits (numbits : ℕ) : Bitmask := ⟨(numbits + 31) / 32, fun _ => 0#32⟩

/-- The word `1U << (bit & 0x1f)`. -/
def single (bit : ℕ) : BitVec 32 := 1#32 <<< (bit % 32)

/-- A bit of a word is set. -/
def inWord (w : BitVec 32) (bit : ℕ) : Bool := w &&& single bit != 0#32

/-- The word of a bit. -/
def load (m : Bitmask) (bit : ℕ) : BitVec 32 := m.bits (bit / 32)

/-- The word of a bit is stored. -/
def store (m : Bitmask) (bit : ℕ) (w : BitVec 32) : Bitmask :=
  { m with bits := update m.bits (bit / 32) w }

/-- The word that `set` stores when it has loaded `w`. -/
def setWord (w : BitVec 32) (bit : ℕ) : BitVec 32 := w ||| single bit

/-- The word that `clear` stores when it has loaded `w`. -/
def clearWord (w : BitVec 32) (bit : ℕ) : BitVec 32 := w &&& ~~~ single bit

def set (m : Bitmask) (bit : ℕ) : Bitmask := m.store bit (setWord (m.load bit) bit)

def clear (m : Bitmask) (bit : ℕ) : Bitmask := m.store bit (clearWord (m.load bit) bit)

def clearall (m : Bitmask) : Bitmask :=
  { m with bits := fun i => if i < m.numwords then 0#32 else m.bits i }

def get (m : Bitmask) (bit : ℕ) : Bool := inWord (m.load bit) bit

def empty (m : Bitmask) : Bool := (List.range m.numwords).all fun i => m.bits i == 0#32

theorem getLsbD_single (bit : ℕ) {k : ℕ} (hk : k < 32) :
    (single bit).getLsbD k = decide (k = bit % 32) := by
  rw [single, getLsbD_shiftLeft, getLsbD_one, Bool.eq_iff_iff]
  simp only [Bool.and_eq_true, Bool.not_eq_true', decide_eq_true_eq, decide_eq_false_iff_not]
  omega

theorem inWord_eq (w : BitVec 32) (bit : ℕ) : inWord w bit = w.getLsbD (bit % 32) := by
  have hlt : bit % 32 < 32 := Nat.mod_lt _ (by decide)
  rw [Bool.eq_iff_iff, inWord, bne_iff_ne]
  constructor
  · intro h
    by_contra hw
    refine h (eq_of_getLsbD_eq fun k hk => ?_)
    rw [getLsbD_and, getLsbD_single bit hk, getLsbD_zero]
    by_cases hk' : k = bit % 32
    · subst hk'
      simpa using hw
    · simp [hk']
  · intro h h'
    have := congrArg (·.getLsbD (bit % 32)) h'
    simp [getLsbD_and, getLsbD_single bit hlt, h] at this

variable {bit bit' : ℕ}

theorem inWord_setWord {w : BitVec 32} (h : bit' / 32 = bit / 32) :
    inWord (setWord w bit) bit' = (decide (bit' = bit) || inWord w bit') := by
  have hlt : bit' % 32 < 32 := Nat.mod_lt _ (by decide)
  have hiff : bit' % 32 = bit % 32 ↔ bit' = bit := by omega
  simp only [inWord_eq, setWord, getLsbD_or, getLsbD_single bit hlt, hiff]
  exact Bool.or_comm _ _

theorem inWord_clearWord {w : BitVec 32} (h : bit' / 32 = bit / 32) :
    inWord (clearWord w bit) bit' = (!decide (bit' = bit) && inWord w bit') := by
  have hlt : bit' % 32 < 32 := Nat.mod_lt _ (by decide)
  have hiff : bit' % 32 = bit % 32 ↔ bit' = bit := by omega
  simp only [inWord_eq, clearWord, getLsbD_and, getLsbD_not, hlt, decide_true,
    Bool.true_and, getLsbD_single bit hlt, hiff]
  exact Bool.and_comm _ _

theorem get_store_of_ne (m : Bitmask) (h : bit' / 32 ≠ bit / 32) (w : BitVec 32) :
    (m.store bit w).get bit' = m.get bit' := by
  simp only [get, load, store, update_of_ne h]

theorem get_store_of_eq (m : Bitmask) (h : bit' / 32 = bit / 32) (w : BitVec 32) :
    (m.store bit w).get bit' = inWord w bit' := by
  simp only [get, load, store, h, update_self]

theorem inWord_load (m : Bitmask) (h : bit' / 32 = bit / 32) :
    inWord (m.load bit) bit' = m.get bit' := by
  rw [get, load, load, h]

@[simp] theorem get_set (m : Bitmask) (bit bit' : ℕ) :
    (m.set bit).get bit' = (decide (bit' = bit) || m.get bit') := by
  by_cases h : bit' / 32 = bit / 32
  · rw [set, get_store_of_eq m h, inWord_setWord h, inWord_load m h]
  · have hne : bit' ≠ bit := by
      rintro rfl
      exact h rfl
    rw [set, get_store_of_ne m h, decide_eq_false hne, Bool.false_or]

@[simp] theorem get_clear (m : Bitmask) (bit bit' : ℕ) :
    (m.clear bit).get bit' = (!decide (bit' = bit) && m.get bit') := by
  by_cases h : bit' / 32 = bit / 32
  · rw [clear, get_store_of_eq m h, inWord_clearWord h, inWord_load m h]
  · have hne : bit' ≠ bit := by
      rintro rfl
      exact h rfl
    rw [clear, get_store_of_ne m h, decide_eq_false hne, Bool.not_false, Bool.true_and]

@[simp] theorem numwords_set (m : Bitmask) (bit : ℕ) : (m.set bit).numwords = m.numwords := rfl

theorem get_of_bits_eq_zero {m : Bitmask} (h : m.bits (bit / 32) = 0#32) : m.get bit = false := by
  simp [get, load, inWord, h]

theorem get_clearall {m : Bitmask} (bit : ℕ) :
    m.clearall.get bit = (!decide (bit < 32 * m.numwords) && m.get bit) := by
  by_cases h : bit / 32 < m.numwords
  · have hlt : bit < 32 * m.numwords := by omega
    rw [get_of_bits_eq_zero (if_pos h), decide_eq_true hlt, Bool.not_true, Bool.false_and]
  · have hle : ¬ bit < 32 * m.numwords := by omega
    simp only [decide_eq_false hle, Bool.not_false, Bool.true_and, get, load, clearall, if_neg h]

theorem empty_iff (m : Bitmask) : m.empty = true ↔ ∀ bit < 32 * m.numwords, m.get bit = false := by
  simp only [empty, List.all_eq_true, List.mem_range, beq_iff_eq]
  constructor
  · intro h bit hbit
    exact get_of_bits_eq_zero (h _ (by omega))
  · intro h i hi
    refine eq_of_getLsbD_eq fun k hk => ?_
    have hget := h (32 * i + k) (by omega)
    rw [get, inWord_eq, load, show (32 * i + k) / 32 = i by omega,
      show (32 * i + k) % 32 = k by omega] at hget
    rw [hget, getLsbD_zero]

end Bitmask

end Tm4cPilot
