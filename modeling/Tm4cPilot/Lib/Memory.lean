import Mathlib.Data.List.Basic
import Mathlib.Data.List.GetD
import Mathlib.Tactic

/-!
# Block access to a byte-addressed memory

A memory is a function from addresses to cells. `updateBlock` combines a list of cells into a range,
and `writeBlock` replaces the old ones.
-/

namespace Memory

open List

variable {β : Type*}

/-- The `n` cells from address `ofs` on. -/
def readBlock (m : ℕ → β) (ofs n : ℕ) : List β := (range n).map fun i => m (ofs + i)

/-- Combine the cells of `l` into the range at `ofs`. -/
def updateBlock (f : β → β → β) (m : ℕ → β) (ofs : ℕ) (l : List β) : ℕ → β := fun a =>
  if ofs ≤ a then
    match l[a - ofs]? with
    | some b => f (m a) b
    | none => m a
  else m a

/-- Overwrite the range starting at `ofs` with the cells of `l`. -/
def writeBlock (m : ℕ → β) (ofs : ℕ) (l : List β) : ℕ → β := updateBlock (fun _ b => b) m ofs l

@[simp] theorem length_readBlock (m : ℕ → β) (ofs n : ℕ) : (readBlock m ofs n).length = n := by
  simp [readBlock]

@[simp] theorem getElem_readBlock (m : ℕ → β) (ofs n i : ℕ) (h : i < (readBlock m ofs n).length) :
    (readBlock m ofs n)[i] = m (ofs + i) := by
  simp [readBlock]

variable {m m' : ℕ → β} {ofs n : ℕ}

theorem readBlock_congr (h : ∀ a, ofs ≤ a → a < ofs + n → m a = m' a) :
    readBlock m ofs n = readBlock m' ofs n := by
  apply ext_getElem (by simp)
  intro i hi _
  simp only [length_readBlock] at hi
  simp only [getElem_readBlock]
  exact h _ (by omega) (by omega)

variable {l : List β}

theorem readBlock_eq_iff (hl : l.length = n) :
    readBlock m ofs n = l ↔ ∀ i (h : i < l.length), m (ofs + i) = l[i] := by
  constructor
  · rintro rfl i h
    simp
  · intro h
    apply ext_getElem (by simp [hl])
    intro i _ hi
    rw [getElem_readBlock, h i hi]

theorem readBlock_add (m : ℕ → β) (ofs n k : ℕ) :
    readBlock m ofs (n + k) = readBlock m ofs n ++ readBlock m (ofs + n) k := by
  apply ext_getElem (by simp)
  intro i h₁ h₂
  simp only [getElem_readBlock]
  by_cases hi : i < n
  · rw [getElem_append_left (by simpa using hi), getElem_readBlock]
  · rw [getElem_append_right (by simp; omega), getElem_readBlock, length_readBlock]
    congr 1
    omega

variable (f : β → β → β)

variable {a : ℕ}

theorem updateBlock_apply_in (m : ℕ → β) (h₁ : ofs ≤ a) (h₂ : a - ofs < l.length) :
    updateBlock f m ofs l a = f (m a) l[a - ofs] := by
  simp [updateBlock, h₁, getElem?_eq_getElem h₂]

theorem updateBlock_apply_out (m : ℕ → β) (h : a < ofs ∨ ofs + l.length ≤ a) :
    updateBlock f m ofs l a = m a := by
  unfold updateBlock
  split_ifs with ha
  · rw [getElem?_eq_none (by omega)]
  · rfl

@[simp] theorem updateBlock_nil (m : ℕ → β) (ofs : ℕ) : updateBlock f m ofs [] = m := by
  funext a
  exact updateBlock_apply_out f m (by simp; omega)

variable {ofs' : ℕ}

theorem readBlock_updateBlock_out (m : ℕ → β) (h : ofs' + n ≤ ofs ∨ ofs + l.length ≤ ofs') :
    readBlock (updateBlock f m ofs l) ofs' n = readBlock m ofs' n :=
  readBlock_congr fun _ _ _ => updateBlock_apply_out f m (by omega)

theorem readBlock_updateBlock_same (m : ℕ → β) (ofs : ℕ) (l : List β) :
    readBlock (updateBlock f m ofs l) ofs l.length =
      zipWith f (readBlock m ofs l.length) l := by
  apply ext_getElem (by simp)
  intro i h₁ h₂
  simp only [length_readBlock] at h₁
  rw [getElem_readBlock, updateBlock_apply_in f m (by omega) (by omega), getElem_zipWith,
    getElem_readBlock]
  simp

theorem writeBlock_apply_in (m : ℕ → β) (h₁ : ofs ≤ a) (h₂ : a - ofs < l.length) :
    writeBlock m ofs l a = l[a - ofs] :=
  updateBlock_apply_in _ m h₁ h₂

theorem writeBlock_apply_out (m : ℕ → β) (h : a < ofs ∨ ofs + l.length ≤ a) :
    writeBlock m ofs l a = m a :=
  updateBlock_apply_out _ m h

@[simp] theorem writeBlock_nil (m : ℕ → β) (ofs : ℕ) : writeBlock m ofs [] = m :=
  updateBlock_nil _ m ofs

/-- What was written is read back. -/
theorem readBlock_writeBlock_same (m : ℕ → β) (ofs : ℕ) (l : List β) :
    readBlock (writeBlock m ofs l) ofs l.length = l := by
  rw [writeBlock, readBlock_updateBlock_same]
  apply ext_getElem (by simp)
  intro i _ _
  simp

/-- A write leaves the rest alone. -/
theorem readBlock_writeBlock_out (m : ℕ → β) (h : ofs' + n ≤ ofs ∨ ofs + l.length ≤ ofs') :
    readBlock (writeBlock m ofs l) ofs' n = readBlock m ofs' n :=
  readBlock_updateBlock_out _ m h

theorem writeBlock_congr (h : m a = m' a) (ofs : ℕ) (l : List β) :
    writeBlock m ofs l a = writeBlock m' ofs l a := by
  by_cases hin : ofs ≤ a ∧ a < ofs + l.length
  · rw [writeBlock_apply_in m hin.1 (by omega), writeBlock_apply_in m' hin.1 (by omega)]
  · rw [writeBlock_apply_out m (by omega), writeBlock_apply_out m' (by omega), h]

theorem writeBlock_append (m : ℕ → β) (ofs : ℕ) (l₁ l₂ : List β) :
    writeBlock m ofs (l₁ ++ l₂) = writeBlock (writeBlock m ofs l₁) (ofs + l₁.length) l₂ := by
  funext a
  have hlen : (l₁ ++ l₂).length = l₁.length + l₂.length := length_append
  by_cases h₁ : ofs ≤ a ∧ a < ofs + l₁.length
  · rw [writeBlock_apply_in m (l := l₁ ++ l₂) h₁.1 (by omega), writeBlock_apply_out _ (by omega),
      writeBlock_apply_in m h₁.1 (by omega), getElem_append_left]
  · by_cases h₂ : ofs + l₁.length ≤ a ∧ a < ofs + l₁.length + l₂.length
    · rw [writeBlock_apply_in m (l := l₁ ++ l₂) (by omega) (by omega),
        writeBlock_apply_in _ h₂.1 (by omega), getElem_append_right (by omega)]
      congr 1
      omega
    · rw [writeBlock_apply_out m (l := l₁ ++ l₂) (by omega), writeBlock_apply_out _ (by omega),
        writeBlock_apply_out m (by omega)]

theorem writeBlock_readBlock_apply (m m' : ℕ → β) (ofs n a : ℕ) :
    writeBlock m ofs (readBlock m' ofs n) a = if ofs ≤ a ∧ a < ofs + n then m' a else m a := by
  split_ifs with h
  · rw [writeBlock_apply_in m h.1 (by rw [length_readBlock]; omega), getElem_readBlock]
    congr 1
    omega
  · exact writeBlock_apply_out m (by rw [length_readBlock]; omega)

/-- The cells of `l` lie at `ofs`. -/
def Holds (m : ℕ → β) (ofs : ℕ) (l : List β) : Prop := readBlock m ofs l.length = l

@[simp] theorem holds_nil (m : ℕ → β) (ofs : ℕ) : Holds m ofs [] := rfl

theorem holds_append {l₁ l₂ : List β} :
    Holds m ofs (l₁ ++ l₂) ↔ Holds m ofs l₁ ∧ Holds m (ofs + l₁.length) l₂ := by
  unfold Holds
  rw [length_append, readBlock_add]
  constructor
  · intro h
    exact append_inj h (length_readBlock ..)
  · intro ⟨h₁, h₂⟩
    rw [h₁, h₂]

theorem Holds.congr (h : Holds m ofs l) (heq : ∀ a, ofs ≤ a → a < ofs + l.length → m' a = m a) :
    Holds m' ofs l :=
  (readBlock_congr heq).trans h

theorem holds_writeBlock (m : ℕ → β) (ofs : ℕ) (l : List β) : Holds (writeBlock m ofs l) ofs l :=
  readBlock_writeBlock_same m ofs l

theorem Holds.writeBlock {l' : List β} (h : Holds m ofs l)
    (hout : ofs + l.length ≤ ofs' ∨ ofs' + l'.length ≤ ofs) :
    Holds (Memory.writeBlock m ofs' l') ofs l :=
  (readBlock_writeBlock_out m hout).trans h

end Memory
