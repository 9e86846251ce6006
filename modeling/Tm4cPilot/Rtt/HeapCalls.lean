import Tm4cPilot.Rtt.Heap

/-!
# What the calls of the heap do

`Effect` says which blocks are used after a call, and that those that stay used keep their bytes.
There is a lemma for each function, which also says when no free block is lower than `lfree`.
-/

namespace Tm4cPilot.Rtt

open Option Set Nat Prod UInt32

namespace Heap

variable {h h' h'' : Heap} {H H' H'' : Set ℕ} {b p : ℕ} {x : ℕ × ℕ} {r : Option ℕ} {size : UInt32}

/-! ### The used blocks -/

/-- The used blocks. -/
def extents (h : Heap) (H : Set ℕ) : Set (ℕ × ℕ) :=
  {x | x.1 ∈ H ∧ x.1 ≠ h.heapEnd ∧ (h.mem x.1).used = true ∧ x.2 = (h.mem x.1).next}

/-- No free block is lower than `lfree`. -/
def Low (h : Heap) (H : Set ℕ) : Prop :=
  ∀ b ∈ H, b ≠ h.heapEnd → (h.mem b).used = false → h.lfree ≤ b

/-- No other free block than `b` is before the lowest one. -/
def LowBut (h : Heap) (H : Set ℕ) (b : ℕ) : Prop :=
  ∀ c ∈ H, c ≠ h.heapEnd → (h.mem c).used = false → c ≠ b → h.lfree ≤ c

theorem Low.lowBut (low : h.Low H) (b : ℕ) : h.LowBut H b :=
  fun c hc inside free _ => low c hc inside free

/-- `lfree` is not behind `b`, or the next block. -/
def Near (h : Heap) (b : ℕ) : Prop :=
  h.lfree ≤ b ∨ h.lfree = (h.mem b).next ∧ (h.mem (h.mem b).next).used = false
deriving Decidable

/-- The blocks keep their bytes. -/
def Keeps (h h' : Heap) (U : Set (ℕ × ℕ)) : Prop :=
  ∀ x ∈ U, ∀ a, x.1 + sizeofStructMem ≤ a → a < x.2 → h'.data a = h.data a

/-- The heap stays sound, `U` are the used blocks, and old ones keep their bytes. -/
structure Effect (h : Heap) (H : Set ℕ) (h' : Heap) (H' : Set ℕ) (U : Set (ℕ × ℕ)) : Prop where
  sound : h'.Sound H'
  size : h'.memSizeAligned = h.memSizeAligned
  extents : h'.extents H' = U
  keeps : h.Keeps h' (h.extents H ∩ U)

theorem Effect.heapEnd {U : Set (ℕ × ℕ)} (effect : Effect h H h' H' U) : h'.heapEnd = h.heapEnd :=
  congrArg (· + sizeofStructMem) effect.size

theorem Sound.effect (sound : h.Sound H) : Effect h H h H (h.extents H) :=
  ⟨sound, rfl, rfl, fun _ _ _ _ _ => rfl⟩

theorem Effect.trans {U U' : Set (ℕ × ℕ)} (first : Effect h H h' H' U)
    (second : Effect h' H' h'' H'' U') (sub : h.extents H ∩ U' ⊆ U) : Effect h H h'' H'' U' := by
  refine ⟨second.sound, second.size.trans first.size, second.extents, fun x hx a low high => ?_⟩
  have between : x ∈ U := sub hx
  rw [second.keeps x ⟨first.extents ▸ between, hx.2⟩ a low high,
    first.keeps x ⟨hx.1, between⟩ a low high]

section

variable (sound : h.Sound H)
include sound

theorem Sound.effect_lfree (hb : b ∈ H) : Effect h H { h with lfree := b } H (h.extents H) :=
  ⟨sound.with_lfree hb, rfl, rfl, fun _ _ _ _ _ => rfl⟩

theorem Sound.extents_apart (used : x ∈ h.extents H) {c : ℕ} (hc : c ∈ H)
    (other : c ≠ x.1) : (h.mem c).next ≤ x.1 ∨ x.2 ≤ c := by
  obtain ⟨hb, _, _, isNext⟩ := used
  rcases lt_or_gt_of_ne other with before | behind
  · exact .inl (sound.blocks.apart hc hb before)
  · rw [isNext]
    exact .inr (sound.blocks.apart hb hc behind)

theorem Sound.outside (used : x ∈ h.extents H) {c : ℕ} (hc : c ∈ H) {a : ℕ}
    (low : x.1 + sizeofStructMem ≤ a) (high : a < x.2) : a < c ∨ c + sizeofStructMem ≤ a := by
  by_cases same : c = x.1
  · rw [same]
    exact .inr low
  · rcases sound.blocks.gap_apart used.1 hc same with before | behind
    · exact .inr (by omega)
    · have next := sound.blocks.apart used.1 hc (by omega)
      rw [← used.2.2.2] at next
      exact .inl (high.trans_le next)

theorem Sound.extents_split (hb : b ∈ H) (notEnd : b ≠ h.heapEnd) (after : b < p)
    (fits : p < (h.mem b).next) :
    (h.split b p).extents (insert p H) =
      {x | x ∈ h.extents H ∧ x.1 ≠ b} ∪ {x | x = (b, p) ∧ (h.mem b).used = true} := by
  have fresh : p ∉ H := sound.blocks.fresh hb notEnd after fits
  ext ⟨c, e⟩
  simp only [extents, mem_ofPred_eq, mem_insert_iff, mem_union, heapEnd_split,
    used_split, next_split]
  grind

theorem Sound.keeps_split (hb : b ∈ H) (after : b + sizeofStructMem ≤ p)
    (fits : p + sizeofStructMem ≤ (h.mem b).next) :
    h.Keeps (h.split b p) {x | x ∈ h.extents H ∧ x.1 ≠ b} := by
  rintro x ⟨used, other⟩ a low high
  refine data_split ?_ (sound.outside used hb low high)
    (sound.outside used (sound.next_mem hb) low high)
  rcases lt_or_gt_of_ne other with before | behind
  · have := used.2.2.2 ▸ sound.blocks.apart used.1 hb before
    exact .inl (by omega)
  · have := sound.blocks.apart hb used.1 behind
    exact .inr (by omega)

theorem Sound.effect_split (hb : b ∈ H) (notEnd : b ≠ h.heapEnd) (aligned : 4 ∣ p)
    (after : b + sizeofStructMem ≤ p) (fits : p + sizeofStructMem ≤ (h.mem b).next)
    (free : (h.mem b).used = false) : Effect h H (h.split b p) (insert p H) (h.extents H) := by
  have positive : 0 < sizeofStructMem := by decide
  have other (x : ℕ × ℕ) (used : x ∈ h.extents H) : x.1 ≠ b := fun same => by
    rw [← same, used.2.2.1] at free
    cases free
  refine ⟨sound.split hb notEnd after fits aligned, (rest_split b p).2.1, ?_,
    fun x hx => sound.keeps_split hb after fits x ⟨hx.1, other x hx.1⟩⟩
  rw [sound.extents_split hb notEnd (by omega) (by omega)]
  ext x
  simp only [mem_ofPred_eq, mem_union, free, Bool.false_eq_true, and_false, or_false]
  exact ⟨fun both => both.1, fun used => ⟨used, other x used⟩⟩

end

theorem Low.split (low : h.Low H) (lowB : h.lfree ≤ b) (after : b < p) :
    (h.split b p).Low (insert p H) := by
  rintro c (rfl | old) notEnd' free
  · rw [(rest_split ..).2.2]
    omega
  · rw [(rest_split ..).2.2]
    by_cases isP : c = p
    · omega
    · rw [used_split, if_neg isP] at free
      rw [heapEnd_split] at notEnd'
      exact low c old notEnd' free

theorem Low.with_lfree (low : h.Low H) {l : ℕ}
    (below : ∀ c ∈ H, (h.mem c).used = false → h.lfree ≤ c → l ≤ c) : { h with lfree := l }.Low H :=
  fun c hc inside free => below c hc free (low c hc inside free)

section

variable (sound : h.Sound H)
include sound

theorem Sound.effect_join (hb : b ∈ H) (notEnd : b ≠ h.heapEnd)
    (inside : (h.mem b).next ≠ h.heapEnd) (free : (h.mem b).used = false)
    (freeNext : (h.mem (h.mem b).next).used = false) :
    Effect h H (h.join b (h.mem b).next) (H \ {(h.mem b).next}) (h.extents H) := by
  refine ⟨sound.join hb notEnd inside, rfl, ?_, ?_⟩
  · ext ⟨c, e⟩
    simp only [extents, mem_ofPred_eq, mem_sdiff, mem_singleton_iff, heapEnd_join,
      used_join, next_join]
    grind
  · rintro x ⟨used, _⟩ a low high
    exact data_join (sound.outside used hb low high)
      (sound.outside used (sound.next_mem (sound.next_mem hb)) low high)

theorem Sound.low_join (hb : b ∈ H) (notEnd : b ≠ h.heapEnd) (low : h.LowBut H b)
    (lowB : h.lfree ≤ b ∨ h.lfree = (h.mem b).next) :
    (h.join b (h.mem b).next).Low (H \ {(h.mem b).next}) := by
  have gap := sound.blocks.gap_le b hb notEnd
  rintro c ⟨hc, _⟩ notEnd' free
  rw [used_join] at free
  show (if h.lfree = (h.mem b).next then b else h.lfree) ≤ c
  by_cases isB : c = b
  · split <;> omega
  · have := low c hc notEnd' free isB
    split <;> omega

theorem Sound.effect_use (hb : b ∈ H) (notEnd : b ≠ h.heapEnd) :
    Effect h H (h.modify b fun m => { m with used := true }) H
      (insert (b, (h.mem b).next) (h.extents H)) := by
  refine ⟨sound.modify_used hb notEnd true, rfl, ?_, ?_⟩
  · ext ⟨c, e⟩
    simp only [extents, mem_ofPred_eq, mem_insert_iff, heapEnd_modify, mem_modify]
    grind
  · rintro x ⟨used, _⟩ a low high
    exact data_modify (sound.outside used hb low high) _

theorem Sound.effect_release (hb : b ∈ H) (notEnd : b ≠ h.heapEnd) :
    Effect h H (h.modify b fun m => { m with used := false }) H
      (h.extents H \ {(b, (h.mem b).next)}) := by
  refine ⟨sound.modify_used hb notEnd false, rfl, ?_, ?_⟩
  · ext ⟨c, e⟩
    simp only [extents, mem_ofPred_eq, mem_sdiff, mem_singleton_iff, heapEnd_modify,
      mem_modify]
    grind
  · rintro x ⟨used, _⟩ a low high
    exact data_modify (sound.outside used hb low high) _

theorem Sound.effect_lower (hb : b ∈ H) :
    Effect h H (h.lower b) H (h.extents H) ∧
      (h.LowBut H b → (h.lower b).LowBut H b) ∧ (h.lower b).Near b := by
  refine ⟨sound.effect_lfree ?_, fun low c hc inside free other => ?_, .inl ?_⟩
  · split
    · exact hb
    · exact sound.lfree
  · show (if b < h.lfree then b else h.lfree) ≤ c
    have := low c hc inside free other
    split <;> omega
  · show (if b < h.lfree then b else h.lfree) ≤ b
    split <;> omega

theorem Sound.with_data (used : x ∈ h.extents H) {d : ℕ → UInt8}
    (outside : ∀ a, a < x.1 + sizeofStructMem ∨ x.2 ≤ a → d a = h.data a) :
    { h with data := d }.Sound H := by
  refine ⟨sound.blocks, sound.aligned, sound.first, sound.endUsed, sound.endNext, sound.lfree,
    sound.ptr, sound.small, fun c hc i inside => ?_⟩
  have kept : d (c + i) = h.data (c + i) := by
    apply outside
    by_contra within
    have := sound.outside (a := c + i) used hc (by omega) (by omega)
    omega
  exact kept.trans (sound.written c hc i inside)

end

theorem Effect.with_data {y : ℕ × ℕ} (effect : Effect h H h' H' (insert y (h.extents H)))
    (fresh : ∀ x ∈ h.extents H, x.1 ≠ y.1) {d : ℕ → UInt8}
    (outside : ∀ a, a < y.1 + sizeofStructMem ∨ y.2 ≤ a → d a = h'.data a) :
    Effect h H { h' with data := d } H' (insert y (h.extents H)) := by
  have used : y ∈ h'.extents H' := effect.extents ▸ .inl rfl
  refine ⟨effect.sound.with_data used outside, effect.size, effect.extents, fun x hx a low high => ?_⟩
  have usedX : x ∈ h'.extents H' := effect.extents ▸ hx.2
  have kept := effect.keeps x hx a low high
  have apart := effect.sound.extents_apart used usedX.1 (fresh x hx.1)
  rw [← usedX.2.2.2] at apart
  exact (outside a (by omega)).trans kept

/-! ### The calls -/

namespace Sound

variable (sound : h.Sound H)
include sound

section

variable (hb : b ∈ H) (notEnd : b ≠ h.heapEnd) (free : (h.mem b).used = false)

include hb notEnd free

theorem plugForward :
    ∃ H', Effect h H (h.plugForward b) H' (h.extents H) ∧ b ∈ H' ∧
      ((h.plugForward b).mem b).used = false ∧
      (h.LowBut H b → h.Near b → (h.plugForward b).Low H') := by
  rw [Heap.plugForward]
  split
  next joins =>
    refine ⟨_, sound.effect_join hb notEnd joins.2.2 free joins.2.1, ⟨hb, joins.1⟩, ?_,
      fun low near => sound.low_join hb notEnd low (near.imp_right And.left)⟩
    rw [used_join]
    exact free
  next stays =>
    refine ⟨H, sound.effect, hb, free, fun low near c hc inside free => ?_⟩
    have lowB : h.lfree ≤ b := by
      refine near.resolve_right fun ⟨_, freeNext⟩ => stays ⟨?_, freeNext, fun isEnd => ?_⟩
      · have gap := sound.blocks.gap_le b hb notEnd
        have positive : 0 < sizeofStructMem := by decide
        omega
      · rw [isEnd, sound.endUsed] at freeNext
        cases freeNext
    by_cases isB : c = b
    · rw [isB]
      exact lowB
    · exact low c hc inside free isB

theorem plugBackward :
    ∃ H', Effect h H (h.plugBackward b) H' (h.extents H) ∧ (h.Low H → (h.plugBackward b).Low H') := by
  rw [Heap.plugBackward]
  split
  next joins =>
    -- the first block has no block before it
    have notFirst : b ≠ 0 := fun isFirst => joins.1 (by rw [isFirst, sound.first])
    have isNext := sound.blocks.next_prev b hb notEnd notFirst
    have before := sound.blocks.prev_mem b hb notEnd notFirst
    have inside := sound.blocks.prev_ne b hb notEnd notFirst
    have effect := sound.effect_join before inside (by rw [isNext]; exact notEnd) joins.2
      (by rw [isNext]; exact free)
    refine ⟨H \ {b}, ?_, fun low => ?_⟩
    · rwa [isNext] at effect
    · have joined := sound.low_join before inside (low.lowBut _) (.inl (low _ before inside joins.2))
      rwa [isNext] at joined
  next => exact ⟨H, sound.effect, id⟩

theorem plugHoles :
    ∃ H', Effect h H (h.plugHoles b) H' (h.extents H) ∧
      (h.LowBut H b → h.Near b → (h.plugHoles b).Low H') := by
  obtain ⟨H', effect, hb', free', low⟩ := sound.plugForward hb notEnd free
  obtain ⟨H'', effect', low'⟩ := effect.sound.plugBackward hb' (effect.heapEnd ▸ notEnd) free'
  rw [effect.extents] at effect'
  exact ⟨H'', effect.trans effect' inter_subset_right, fun but near => low' (low but near)⟩

end

theorem search {size rounds ptr : ℕ} (hptr : ptr ∈ H)
    (found : h.search size rounds ptr = some (some b)) :
    b ∈ H ∧ b ≠ h.heapEnd ∧ (h.mem b).used = false ∧ b + sizeofStructMem + size ≤ (h.mem b).next ∧
      b < subWrap h.memSizeAligned size := by
  induction rounds generalizing ptr with
  | zero => cases found
  | succ rounds ih =>
    rw [Heap.search] at found
    split at found
    next before =>
      split at found
      next fits =>
        obtain rfl : ptr = b := by simpa using found
        have notEnd : ptr ≠ h.heapEnd := fun isEnd => by
          rw [isEnd, sound.endUsed] at fits
          exact Bool.noConfusion fits.1
        have gap := sound.blocks.gap_le ptr hptr notEnd
        have room := fits.2
        rw [sound.room_eq hptr notEnd] at room
        exact ⟨hptr, notEnd, fits.1, by omega, before⟩
      next => exact ih (sound.next_mem hptr) found
    next => simp at found

theorem search_none {size rounds ptr : ℕ} (hptr : ptr ∈ H)
    (missed : h.search size rounds ptr = some none) (hb : b ∈ H) (le : ptr ≤ b)
    (before : b < subWrap h.memSizeAligned size) : ¬((h.mem b).used = false ∧ size ≤ h.room b) := by
  induction rounds generalizing ptr with
  | zero => cases missed
  | succ rounds ih =>
    rw [Heap.search, if_pos (le.trans_lt before)] at missed
    split at missed
    · simp at missed
    next fails =>
      by_cases same : ptr = b
      · exact same ▸ fails
      · exact ih (sound.next_mem hptr) missed (sound.blocks.apart hptr hb (lt_of_le_of_ne le same))

theorem lowestFree {rounds l l' : ℕ} (hl : l ∈ H) (found : h.lowestFree rounds l = some l') :
    l' ∈ H ∧ ∀ b ∈ H, (h.mem b).used = false → l ≤ b → l' ≤ b := by
  induction rounds generalizing l with
  | zero => cases found
  | succ rounds ih =>
    rw [Heap.lowestFree] at found
    split at found
    next more =>
      obtain ⟨hl', below⟩ := ih (sound.next_mem hl) found
      refine ⟨hl', fun b hb free le => below b hb free ?_⟩
      have other : l ≠ b := fun same => by
        rw [same, free] at more
        cases more.1
      exact sound.blocks.apart hl hb (lt_of_le_of_ne le other)
    next =>
      obtain rfl : l = l' := by simpa using found
      exact ⟨hl, fun _ _ _ le => le⟩

section

variable (hb : b ∈ H) (notEnd : b ≠ h.heapEnd) (free : (h.mem b).used = false) {size : ℕ}
  (aligned : 4 ∣ size) (fits : b + sizeofStructMem + size ≤ (h.mem b).next)

include hb notEnd free aligned fits

theorem take :
    ∃ H' e, Effect h H (h.take b size) H' (insert (b, e) (h.extents H)) ∧
      b + sizeofStructMem + size ≤ e ∧ (h.Low H → (h.take b size).Low H') := by
  have positive : 0 < sizeofStructMem := by decide
  have used {h : Heap} {H : Set ℕ} (low : h.Low H) :
      (h.modify b fun m => { m with used := true }).Low H := by
    intro c hc notEnd isFree
    rw [mem_modify] at isFree
    split at isFree
    · cases isFree
    · exact low c hc notEnd isFree
  rw [Heap.take, sound.room_eq hb notEnd]
  split
  next large =>
    have split := sound.effect_split (p := b + sizeofStructMem + size) hb notEnd
      (((sound.aligned b hb).add (by decide)).add aligned) (by omega) (by omega) free
    have taken := split.sound.effect_use (.inr hb) (split.heapEnd ▸ notEnd)
    rw [split.extents, next_split, if_pos rfl] at taken
    exact ⟨_, _, split.trans taken inter_subset_left, le_rfl,
      fun low => used (low.split (low b hb notEnd free) (by omega))⟩
  next => exact ⟨_, _, sound.effect_use hb notEnd, fits, used⟩

theorem grant (granted : h.grant b size = some (h', r)) :
    ∃ H' e, r = some (b + sizeofStructMem) ∧ Effect h H h' H' (insert (b, e) (h.extents H)) ∧
      b + sizeofStructMem + size ≤ e ∧ (h.Low H → h'.Low H') := by
  obtain ⟨H', e, taken, room, low⟩ := sound.take hb notEnd free aligned fits
  rw [Heap.grant] at granted
  split at granted
  · obtain ⟨l, lowest, granted⟩ := map_eq_some_iff.mp granted
    cases granted
    obtain ⟨hl, below⟩ := taken.sound.lowestFree taken.sound.lfree lowest
    have moved := taken.sound.effect_lfree hl
    rw [taken.extents] at moved
    exact ⟨H', e, rfl, taken.trans moved inter_subset_right, room,
      fun lowH => (low lowH).with_lfree below⟩
  · cases granted
    exact ⟨H', e, rfl, taken, room, low⟩

end

end Sound

/-- The bytes of a new block. -/
def granted (size : UInt32) : ℕ := max (alignUp size).toNat minSize

theorem minSize_le_granted (size : UInt32) : minSize ≤ granted size := le_max_right ..

theorem granted_pos (size : UInt32) : 0 < granted size :=
  (show 0 < minSize by decide).trans_le (minSize_le_granted size)

theorem four_dvd_granted (size : UInt32) : 4 ∣ granted size := by
  rcases max_choice (alignUp size).toNat minSize with same | same <;> rw [granted, same]
  · exact four_dvd_alignUp size
  · decide

theorem malloc_eq_of_fits (positive : size ≠ 0) (fits : ¬h.memSizeAligned < (alignUp size).toNat) :
    h.malloc size = (h.search (granted size) h.rounds h.lfree).bind fun found =>
      found.elim (some (h, none)) fun ptr => h.grant ptr (granted size) := by
  have least : (if (alignUp size).toNat < minSize then minSize else (alignUp size).toNat) =
      granted size := by
    rw [granted]
    split <;> omega
  rw [malloc, if_neg positive, if_neg fits, least]

theorem malloc_eq_none (fails : size = 0 ∨ h.memSizeAligned < (alignUp size).toNat) :
    h.malloc size = some (h, none) := by
  rw [malloc]
  by_cases zero : size = 0
  · rw [if_pos zero]
  · rw [if_neg zero, if_pos (fails.resolve_left zero)]

theorem malloc_cases (called : h.malloc size = some (h', r)) :
    (r = none ∧ h' = h ∧ (size = 0 ∨ h.memSizeAligned < (alignUp size).toNat ∨
        h.search (granted size) h.rounds h.lfree = some none)) ∨
      ∃ b, h.search (granted size) h.rounds h.lfree = some (some b) ∧
        h.grant b (granted size) = some (h', r) := by
  by_cases fails : size = 0 ∨ h.memSizeAligned < (alignUp size).toNat
  · rw [malloc_eq_none fails] at called
    cases called
    exact .inl ⟨rfl, rfl, fails.imp_right .inl⟩
  rw [malloc_eq_of_fits (fun zero => fails (.inl zero)) (fun more => fails (.inr more))] at called
  obtain ⟨found, searched, called⟩ := bind_eq_some_iff.mp called
  cases found with
  | none =>
    cases called
    exact .inl ⟨rfl, rfl, .inr (.inr searched)⟩
  | some b => exact .inr ⟨b, searched, called⟩

namespace Sound

variable (sound : h.Sound H)
include sound

theorem malloc (called : h.malloc size = some (h', r)) :
    (r = none ∧ h' = h) ∨ ∃ H' b e, r = some (b + sizeofStructMem) ∧
      b + sizeofStructMem + granted size ≤ e ∧ (∀ y ∈ h.extents H, y.1 ≠ b) ∧
      Effect h H h' H' (insert (b, e) (h.extents H)) ∧ (h.Low H → h'.Low H') := by
  rcases malloc_cases called with ⟨isNone, same, _⟩ | ⟨b, searched, granted⟩
  · exact .inl ⟨isNone, same⟩
  obtain ⟨hb, notEnd, free, fits, _⟩ := sound.search sound.lfree searched
  obtain ⟨H', e, isP, effect, room, low⟩ :=
    sound.grant hb notEnd free (four_dvd_granted size) fits granted
  refine .inr ⟨H', b, e, isP, room, ?_, effect, low⟩
  rintro y ⟨_, _, isUsed, _⟩ rfl
  rw [free] at isUsed
  cases isUsed

theorem calloc {count size : UInt32} (called : h.calloc count size = some (h', r)) :
    (r = none ∧ h' = h) ∨ ∃ H' b e, r = some (b + sizeofStructMem) ∧
      b + sizeofStructMem + granted (count * size) ≤ e ∧ (∀ y ∈ h.extents H, y.1 ≠ b) ∧
      Effect h H h' H' (insert (b, e) (h.extents H)) ∧ (h.Low H → h'.Low H') := by
  obtain ⟨⟨h'', r'⟩, allocated, zeroed⟩ := bind_eq_some_iff.mp called
  rcases sound.malloc allocated with ⟨rfl, rfl⟩ | ⟨H', b, e, rfl, room, fresh, effect, low⟩
  · cases zeroed
    exact .inl ⟨rfl, rfl⟩
  dsimp only at zeroed
  split at zeroed
  next inside =>
    cases zeroed
    have small : (count * size).toNat ≤ 0xfffffffc := by
      have := effect.sound.small
      rw [Heap.heapEnd, sizeofStructMem] at inside
      omega
    have enough : (count * size).toNat ≤ granted (count * size) :=
      (toNat_alignUp_of_le small).1.trans (le_max_left ..)
    exact .inr ⟨H', b, e, rfl, room, fresh,
      effect.with_data fresh fun a outside => if_neg (by dsimp only at outside; omega), low⟩
  next => cases zeroed

theorem plug_released (hb : b ∈ H) (notEnd : b ≠ h.heapEnd) :
    ∃ H', Effect h H (((h.modify b fun m => { m with used := false }).lower b).plugHoles b) H'
        (h.extents H \ {(b, (h.mem b).next)}) ∧
      (h.Low H →
        (((h.modify b fun m => { m with used := false }).lower b).plugHoles b).Low H') := by
  have released := sound.effect_release hb notEnd
  have isFree : ((h.modify b fun m => { m with used := false }).mem b).used = false := by
    rw [mem_modify, if_pos rfl]
  obtain ⟨lowered, low, near⟩ := released.sound.effect_lower hb
  rw [released.extents] at lowered
  obtain ⟨H', plugged, low'⟩ := lowered.sound.plugHoles hb notEnd isFree
  rw [lowered.extents] at plugged
  refine ⟨H', (released.trans lowered inter_subset_right).trans plugged inter_subset_right,
    fun lowH => low' (low fun c hc inside free other => ?_) near⟩
  rw [mem_modify, if_neg other] at free
  exact lowH c hc inside free

theorem free (used : x ∈ h.extents H) (room : x.1 + sizeofStructMem < x.2) :
    ∃ H', Effect h H (h.free (some (x.1 + sizeofStructMem))) H' (h.extents H \ {x}) ∧
      (h.Low H → (h.free (some (x.1 + sizeofStructMem))).Low H') := by
  obtain ⟨b, e⟩ := x
  obtain ⟨hb, notEnd, _, isNext⟩ := used
  dsimp only at hb notEnd isNext room
  subst isNext
  have nextLe := sound.next_le hb notEnd
  rw [Heap.free, if_neg (by omega), Nat.add_sub_cancel]
  exact sound.plug_released hb notEnd

theorem shrink (used : x ∈ h.extents H) {size : ℕ} (aligned : 4 ∣ size)
    (isP : p = x.1 + sizeofStructMem + size) (fits : p + sizeofStructMem ≤ x.2) :
    ∃ H', Effect h H ((h.split x.1 p).plugHoles p) H' (insert (x.1, p) (h.extents H \ {x})) ∧
      (∀ a, x.1 + sizeofStructMem ≤ a → a < p → ((h.split x.1 p).plugHoles p).data a = h.data a) ∧
      (h.Low H → h.Near x.1 → ((h.split x.1 p).plugHoles p).Low H') := by
  obtain ⟨b, e⟩ := x
  obtain ⟨hb, notEnd, isUsed, isNext⟩ := used
  dsimp only at hb notEnd isUsed isNext fits isP ⊢
  subst isNext
  have positive : 0 < sizeofStructMem := by decide
  have nextLe := sound.next_le hb notEnd
  have split := sound.split (p := p) hb notEnd (by omega) fits
    (isP ▸ ((sound.aligned b hb).add (by decide)).add aligned)
  have extents : (h.split b p).extents (insert p H) =
      insert (b, p) (h.extents H \ {(b, (h.mem b).next)}) := by
    rw [sound.extents_split hb notEnd (by omega) (by omega)]
    ext ⟨c, e⟩
    simp only [Heap.extents, mem_ofPred_eq, mem_union, mem_insert_iff, mem_sdiff,
      mem_singleton_iff]
    grind
  obtain ⟨H', plugged, low⟩ := split.plugHoles (.inl rfl) (by rw [heapEnd_split]; omega)
    (by rw [used_split, if_pos rfl])
  rw [extents] at plugged
  refine ⟨H', ⟨plugged.sound, plugged.size.trans (rest_split ..).2.1, plugged.extents, ?_⟩, ?_, ?_⟩
  · rintro y ⟨old, new⟩ a above below
    have other : y.1 ≠ b := by
      intro same
      rcases new with rfl | ⟨_, notX⟩
      · have := old.2.2.2
        dsimp only at this
        omega
      · exact notX (Prod.ext same (by rw [old.2.2.2, same]))
    rw [plugged.keeps y ⟨extents ▸ new, new⟩ a above below,
      sound.keeps_split hb (by omega) fits y ⟨old, other⟩ a above below]
  · intro a above below
    rw [plugged.keeps (b, p) ⟨extents ▸ .inl rfl, .inl rfl⟩ a above below,
      data_split (.inl below) (.inr above) (.inl (by omega))]
  · refine fun lowH near => low (fun c hc inside free other => ?_) ?_
    · rw [used_split, if_neg other] at free
      rw [heapEnd_split] at inside
      rw [(rest_split ..).2.2]
      exact lowH c (hc.resolve_left other) inside free
    · rw [Near, (rest_split ..).2.2, next_split, if_neg (by omega), if_pos rfl, used_split,
        if_neg (by omega)]
      exact near.imp_left fun le => by omega

theorem move (used : x ∈ h.extents H) (room : x.1 + sizeofStructMem < x.2) {q n : ℕ}
    (allocated : h.malloc size = some (h', some q)) (old : x.1 + sizeofStructMem + n ≤ x.2)
    (new : n ≤ granted size) {copy : Heap} (isCopy : copy = h'.memcpy q (x.1 + sizeofStructMem) n) :
    ∃ H' y, q = y.1 + sizeofStructMem ∧ q + granted size ≤ y.2 ∧ (∀ z ∈ h.extents H, z.1 ≠ y.1) ∧
      Effect h H (copy.free (some (x.1 + sizeofStructMem))) H' (insert y (h.extents H \ {x})) ∧
      (∀ i < n, (copy.free (some (x.1 + sizeofStructMem))).data (q + i) =
        h.data (x.1 + sizeofStructMem + i)) ∧
      (h.Low H → (copy.free (some (x.1 + sizeofStructMem))).Low H') := by
  rcases sound.malloc allocated with ⟨absurd, _⟩ | ⟨H', b, e, isQ, enough, fresh, effect, low⟩
  · cases absurd
  obtain rfl := some.inj isQ
  have copied : Effect h H copy H' (insert (b, e) (h.extents H)) := by
    subst isCopy
    exact effect.with_data fresh fun a outside => if_neg (by dsimp only at outside; omega)
  have notX : x ≠ (b, e) := fun same => fresh x used (congrArg fst same)
  obtain ⟨H'', freed, low'⟩ := copied.sound.free (copied.extents ▸ .inr used) room
  have left : insert (b, e) (h.extents H) \ {x} = insert (b, e) (h.extents H \ {x}) :=
    insert_sdiff_of_notMem _ fun same => notX (mem_singleton_iff.mp same).symm
  rw [copied.extents, left] at freed
  refine ⟨H'', (b, e), rfl, enough, fresh, copied.trans freed ?_, fun i hi => ?_,
    fun lowH => low' (isCopy ▸ low lowH)⟩
  · exact inter_subset_left.trans (subset_insert _ _)
  · have inside : copy.data (b + sizeofStructMem + i) = h'.data (x.1 + sizeofStructMem +
        (b + sizeofStructMem + i - (b + sizeofStructMem))) := isCopy ▸ if_pos (by omega)
    rw [freed.keeps (b, e) ⟨copied.extents ▸ .inl rfl, .inl rfl⟩ _ (by dsimp only; omega)
      (by dsimp only; omega), inside, Nat.add_sub_cancel_left]
    exact effect.keeps x ⟨used, .inr used⟩ _ (by omega) (by omega)

end Sound

/-- `rt_realloc` cuts the end of a block off. -/
def Cuts (h : Heap) (rmem : ℕ) (newsize : UInt32) : Prop :=
  alignUp newsize ≠ 0 ∧
    (alignUp newsize).toNat + sizeofStructMem + minSize < h.room (rmem - sizeofStructMem)
deriving Decidable

namespace Sound

/-- `rt_realloc` gives the block back, fails, or puts a block in its place. -/
theorem realloc (sound : h.Sound H) (used : x ∈ h.extents H)
    (room : x.1 + sizeofStructMem < x.2) {newsize : UInt32}
    (called : h.realloc (some (x.1 + sizeofStructMem)) newsize = some (h', r)) :
    ∃ H', (h.Low H → (h.Cuts (x.1 + sizeofStructMem) newsize → h.Near x.1) → h'.Low H') ∧
      (r = none ∧ alignUp newsize = 0 ∧ Effect h H h' H' (h.extents H \ {x}) ∨
        r = none ∧ alignUp newsize ≠ 0 ∧ h' = h ∧ H' = H ∨
        ∃ y, r = some (y.1 + sizeofStructMem) ∧
          y.1 + sizeofStructMem + (alignUp newsize).toNat ≤ y.2 ∧ y.1 + sizeofStructMem < y.2 ∧
          (∀ z ∈ h.extents H \ {x}, z.1 ≠ y.1) ∧
          Effect h H h' H' (insert y (h.extents H \ {x})) ∧
          ∀ i < min (x.2 - (x.1 + sizeofStructMem)) (alignUp newsize).toNat,
            h'.data (y.1 + sizeofStructMem + i) = h.data (x.1 + sizeofStructMem + i)) := by
  have others : ∀ y ∈ h.extents H \ {x}, y.1 ≠ x.1 := by
    rintro y ⟨other, ne⟩ same
    refine ne (Prod.ext same ?_)
    rw [other.2.2.2, used.2.2.2, same]
  rw [Heap.realloc] at called
  by_cases large : h.memSizeAligned < (alignUp newsize).toNat
  · rw [if_pos large] at called
    cases called
    refine ⟨H, fun low _ => low, .inr (.inl ⟨rfl, fun zero => ?_, rfl, rfl⟩)⟩
    rw [zero] at large
    exact not_lt_zero _ large
  rw [if_neg large] at called
  by_cases zero : alignUp newsize = 0
  · rw [if_pos zero] at called
    cases called
    obtain ⟨H', freed, low⟩ := sound.free used room
    exact ⟨H', fun lowH _ => low lowH, .inl ⟨rfl, zero, freed⟩⟩
  have positive : 0 < (alignUp newsize).toNat :=
    pos_of_ne_zero fun isZero => zero (UInt32.toNat_inj.mp isZero)
  have nextLe := used.2.2.2 ▸ sound.next_le used.1 used.2.1
  have isRoom : h.room x.1 = x.2 - (x.1 + sizeofStructMem) := by
    rw [sound.room_eq used.1 used.2.1, ← used.2.2.2]
  rw [if_neg zero, if_neg (by omega)] at called
  simp only [Nat.add_sub_cancel, isRoom] at called
  by_cases same : x.2 - (x.1 + sizeofStructMem) = (alignUp newsize).toNat
  · rw [if_pos same] at called
    cases called
    have unchanged : insert x (h.extents H \ {x}) = h.extents H := by
      rw [insert_sdiff_singleton, insert_eq_of_mem used]
    refine ⟨H, fun low _ => low, .inr (.inr ⟨x, rfl, by omega, room, others, ?_, fun _ _ => rfl⟩)⟩
    rw [unchanged]
    exact sound.effect
  rw [if_neg same] at called
  by_cases smaller :
      (alignUp newsize).toNat + sizeofStructMem + minSize < x.2 - (x.1 + sizeofStructMem)
  · rw [if_pos smaller] at called
    cases called
    obtain ⟨H', shrunk, kept, low⟩ := sound.shrink used (four_dvd_alignUp newsize) rfl (by omega)
    refine ⟨H', fun lowH near => low lowH (near ⟨zero, ?_⟩), .inr (.inr
      ⟨(x.1, x.1 + sizeofStructMem + (alignUp newsize).toNat), rfl, le_rfl, by dsimp only; omega,
        others, shrunk, fun i hi => kept _ (by dsimp only; omega) (by dsimp only; omega)⟩)⟩
    rw [Nat.add_sub_cancel, isRoom]
    exact smaller
  rw [if_neg smaller] at called
  obtain ⟨⟨h'', r'⟩, allocated, called⟩ := map_eq_some_iff.mp called
  cases r' with
  | none =>
    cases called
    rcases sound.malloc allocated with ⟨_, rfl⟩ | ⟨_, _, _, absurd, _⟩
    · exact ⟨H, fun low _ => low, .inr (.inl ⟨rfl, zero, rfl, rfl⟩)⟩
    · cases absurd
  | some q =>
    cases called
    have enough : (alignUp newsize).toNat ≤ granted (alignUp newsize) := by
      rw [granted, alignUp_alignUp]
      exact le_max_left ..
    obtain ⟨H', y, rfl, fits, fresh, moved, copied, low⟩ :=
      sound.move (n := min (x.2 - (x.1 + sizeofStructMem)) (alignUp newsize).toNat) used room
        allocated (by omega) (by omega) rfl
    exact ⟨H', fun lowH _ => low lowH, .inr (.inr ⟨y, rfl, by omega, by omega,
      fun z hz => fresh z hz.1, moved, copied⟩)⟩

end Sound

theorem sound_prepare (lfree : h.lfree = 0) (ptr : 4 ∣ h.heapPtr) (aligned : 4 ∣ h.memSizeAligned)
    (small : h.heapPtr + h.memSizeAligned + 24 < 2 ^ 32) :
    h.prepare.Sound {0, h.heapEnd} ∧ h.prepare.extents {0, h.heapEnd} = ∅ := by
  have positive : sizeofStructMem ≤ h.heapEnd := Nat.le_add_left ..
  have notZero : 0 ≠ h.heapEnd := by
    have : 0 < sizeofStructMem := by decide
    omega
  have isFirst (b : ℕ) (hb : b ∈ ({0, h.heapEnd} : Set ℕ)) (notEnd : b ≠ h.heapEnd) : b = 0 :=
    hb.resolve_right notEnd
  have first : h.prepare.mem 0 = ⟨false, h.heapEnd, 0⟩ := by
    rw [prepare, mem_modify, if_neg notZero, mem_modify, if_pos rfl]
  have last : h.prepare.mem h.heapEnd = ⟨true, h.heapEnd, h.heapEnd⟩ := by
    rw [prepare, mem_modify, if_pos rfl]
  have written : h.prepare.Written {0, h.heapEnd} := by
    have empty : h.Written ∅ := fun b absurd => absurd.elim
    have one := empty.modify (b := 0) (fun b absurd => absurd.elim) fun _ => ⟨false, h.heapEnd, 0⟩
    have two := one.modify (b := h.heapEnd)
      (fun b hb _ => .inl (by rw [hb.resolve_right id, zero_add]; exact positive))
      fun _ => ⟨true, h.heapEnd, h.heapEnd⟩
    exact two.mono fun b hb => hb.symm.imp_right .inl
  refine ⟨⟨⟨⟨.inl rfl, .inr rfl, ?_, ?_, ?_, ?_⟩, ?_, ?_, ?_⟩, ?_, ?_, ?_, ?_, ?_, ptr, small,
    written⟩, ?_⟩
  · rintro b (rfl | rfl)
    · exact zero_le _
    · exact le_rfl
  · intro b hb notEnd
    rw [isFirst b hb notEnd, first]
    exact .inr rfl
  · intro b hb notEnd
    rw [isFirst b hb notEnd, first, zero_add]
    exact positive
  · rintro b hb notEnd c (rfl | rfl)
    · exact .inl (zero_le _)
    · rw [isFirst b hb notEnd, first]
      exact .inr le_rfl
  · exact fun b hb notEnd notFirst => absurd (isFirst b hb notEnd) notFirst
  · exact fun b hb notEnd notFirst => absurd (isFirst b hb notEnd) notFirst
  · exact fun b hb notEnd notFirst => absurd (isFirst b hb notEnd) notFirst
  · rintro b (rfl | rfl)
    · exact dvd_zero 4
    · exact aligned.add (by decide)
  · rw [first]
  · exact congrArg HeapMem.used last
  · exact congrArg HeapMem.next last
  · exact .inl lfree
  · refine eq_empty_of_forall_notMem ?_
    rintro ⟨b, e⟩ ⟨hb, notEnd, used, _⟩
    rw [isFirst b hb notEnd, first] at used
    cases used

theorem sound_systemHeapInit {mem : ℕ → HeapMem} {data : ℕ → UInt8} {beginAddr endAddr : UInt32}
    (init : systemHeapInit mem data beginAddr endAddr = some h) :
    h.Sound {0, h.heapEnd} ∧ h.extents {0, h.heapEnd} = ∅ ∧ h.lfree = 0 ∧
      endAddr.toNat ≤ beginAddr.toNat + h.memSizeAligned + 30 := by
  rw [systemHeapInit] at init
  split at init
  next fits =>
    obtain ⟨large, order⟩ := fits
    have beginAligned := four_dvd_alignUp beginAddr
    have endAligned : 4 ∣ (alignDown endAddr).toNat := by
      rw [toNat_alignDown]
      exact dvd_mul_left 4 _
    have endLt := (alignDown endAddr).toNat_lt
    have beginLe : (alignUp beginAddr).toNat ≤ beginAddr.toNat + 3 := by
      rw [toNat_alignUp]
      omega
    have endLe : endAddr.toNat ≤ (alignDown endAddr).toNat + 3 := by
      rw [toNat_alignDown]
      omega
    rw [lt_iff_toNat_lt] at large
    rw [UInt32.le_iff_toNat_le, UInt32.toNat_sub] at order
    simp only [reduceToNat] at large order
    have size : (alignDown endAddr - alignUp beginAddr - 24).toNat =
        (alignDown endAddr).toNat - (alignUp beginAddr).toNat - 24 := by
      rw [UInt32.toNat_sub, UInt32.toNat_sub]
      simp only [reduceToNat]
      omega
    rw [size] at init
    obtain rfl := some.inj init
    obtain ⟨sound, empty⟩ := sound_prepare (h := ⟨(alignUp beginAddr).toNat,
      (alignDown endAddr).toNat - (alignUp beginAddr).toNat - 24, mem, data, 0⟩) rfl beginAligned
      (by dsimp only; omega) (by dsimp only; omega)
    refine ⟨sound, empty, rfl, ?_⟩
    show endAddr.toNat ≤
      beginAddr.toNat + ((alignDown endAddr).toNat - (alignUp beginAddr).toNat - 24) + 30
    omega
  next => cases init

namespace Sound

theorem search_isSome (sound : h.Sound H) {size rounds ptr : ℕ} (fits : size ≤ h.memSizeAligned)
    (hptr : ptr ∈ H) (enough : h.heapEnd < ptr + rounds) : (h.search size rounds ptr).isSome := by
  induction rounds generalizing ptr with
  | zero => exact absurd (sound.blocks.le_last ptr hptr) (by omega)
  | succ rounds ih =>
    rw [Heap.search, subWrap_of_le fits (by have := sound.small; omega)]
    split
    next before =>
      have notEnd : ptr ≠ h.heapEnd := by
        rw [heapEnd]
        omega
      have gap := sound.blocks.gap_le ptr hptr notEnd
      have positive : 0 < sizeofStructMem := by decide
      split
      · rfl
      · exact ih (sound.next_mem hptr) (by omega)
    next => rfl

theorem lowestFree_isSome (sound : h.Sound H) {rounds l : ℕ} (hl : l ∈ H)
    (enough : h.heapEnd < l + rounds) : (h.lowestFree rounds l).isSome := by
  induction rounds generalizing l with
  | zero => exact absurd (sound.blocks.le_last l hl) (by omega)
  | succ rounds ih =>
    rw [Heap.lowestFree]
    split
    next more =>
      have gap := sound.blocks.gap_le l hl more.2
      have positive : 0 < sizeofStructMem := by decide
      exact ih (sound.next_mem hl) (by omega)
    next => rfl

theorem grant_isSome (sound : h.Sound H) (hb : b ∈ H) (notEnd : b ≠ h.heapEnd)
    (free : (h.mem b).used = false) {size : ℕ} (aligned : 4 ∣ size)
    (fits : b + sizeofStructMem + size ≤ (h.mem b).next) : (h.grant b size).isSome := by
  obtain ⟨H', _, taken, _⟩ := sound.take hb notEnd free aligned fits
  rw [Heap.grant]
  split
  · rw [isSome_map]
    exact taken.sound.lowestFree_isSome taken.sound.lfree (by rw [rounds]; omega)
  · rfl

theorem malloc_isSome (sound : h.Sound H) (large : minSize ≤ h.memSizeAligned) (size : UInt32) :
    (h.malloc size).isSome := by
  by_cases fails : size = 0 ∨ h.memSizeAligned < (alignUp size).toNat
  · rw [malloc_eq_none fails]
    rfl
  have fits : ¬h.memSizeAligned < (alignUp size).toNat := fun more => fails (.inr more)
  have small : granted size ≤ h.memSizeAligned := max_le (not_lt.mp fits) large
  obtain ⟨found, searched⟩ := isSome_iff_exists.mp
    (sound.search_isSome small sound.lfree (show h.heapEnd < h.lfree + h.rounds by rw [rounds]; omega))
  rw [malloc_eq_of_fits (fun zero => fails (.inl zero)) fits, searched, bind_some]
  cases found with
  | none => rfl
  | some b =>
    obtain ⟨hb, notEnd, free, room, _⟩ := sound.search sound.lfree searched
    exact sound.grant_isSome hb notEnd free (four_dvd_granted size) room

theorem realloc_isSome (sound : h.Sound H) (large : minSize ≤ h.memSizeAligned) (rmem : Option ℕ)
    (newsize : UInt32) : (h.realloc rmem newsize).isSome := by
  have allocated := sound.malloc_isSome large (alignUp newsize)
  cases rmem with
  | none =>
    rw [Heap.realloc]
    split_ifs
    any_goals rfl
    exact allocated
  | some rmem =>
    rw [Heap.realloc]
    dsimp only
    split_ifs
    any_goals rfl
    rw [isSome_map]
    exact allocated

end Sound

end Heap

end Tm4cPilot.Rtt
