import Tm4cPilot.StorageManager.Model

/-!
# A StorageAccess as an array of bytes

Accesses of less than 256 bytes read and write the bytes at the places of their addresses.  The
count has 8 bits, so a longer one is never completed.
-/

namespace Tm4cPilot.StorageManager

open List Nat

variable {type : StorageType}

/-! ## Places -/

/-- The bytes of a type. -/
def capacity (type : StorageType) (areas : List StorageArea) : ℕ :=
  ((areas.filter (·.type = type)).map StorageArea.length).sum

/-- The place of an address. -/
def locate (type : StorageType) : List StorageArea → ℕ → ℕ
  | [], addr => addr
  | area :: areas, addr =>
    if area.type ≠ type then locate type areas addr
    else if addr ≥ area.length then locate type areas (addr - area.length)
    else addr + area.offset

theorem capacity_cons_of_ne {area : StorageArea} (h : area.type ≠ type) (areas : List StorageArea) :
    capacity type (area :: areas) = capacity type areas := by
  simp [capacity, h]

theorem capacity_cons_of_eq {area : StorageArea} (h : area.type = type) (areas : List StorageArea) :
    capacity type (area :: areas) = area.length + capacity type areas := by
  simp [capacity, h]

theorem capacity_le_sum (areas : List StorageArea) :
    capacity type areas ≤ (areas.map StorageArea.length).sum :=
  ((filter_sublist (l := areas)).map StorageArea.length).sum_le_sum fun _ _ => zero_le _

theorem size_eq_capacity (layout : Layout) : size layout type = capacity type layout.areas := by
  have hfold : ∀ (areas : List StorageArea) (total : ℕ),
      total + capacity type areas < 2 ^ 16 → areas.foldl (fun total area =>
        if area.type = type then (total + area.length) % 2 ^ 16 else total) total =
          total + capacity type areas := by
    intro areas
    induction areas with
    | nil => simp [capacity]
    | cons area areas ih =>
      intro total h
      rw [foldl_cons]
      by_cases ht : area.type = type
      · rw [capacity_cons_of_eq ht] at h ⊢
        rw [if_pos ht, mod_eq_of_lt (by omega), ih _ (by omega), add_assoc]
      · rw [capacity_cons_of_ne ht] at h ⊢
        rw [if_neg ht, ih _ h]
  have hsmall : capacity type layout.areas ≤ _ := capacity_le_sum layout.areas
  have := layout.small
  rw [size, hfold _ 0 (by omega), zero_add]

theorem size_lt (layout : Layout) (type : StorageType) : size layout type < 2 ^ 16 := by
  rw [size_eq_capacity]
  exact (capacity_le_sum layout.areas).trans_lt layout.small

variable {areas : List StorageArea} {addr : ℕ}

theorem exists_area_locate (h : addr < capacity type areas) :
    ∃ area ∈ areas, area.offset ≤ locate type areas addr ∧
      locate type areas addr < area.offset + area.length := by
  induction areas generalizing addr with
  | nil => simp [capacity] at h
  | cons area areas ih =>
    by_cases ht : area.type = type
    · rw [capacity_cons_of_eq ht] at h
      by_cases ha : addr ≥ area.length
      · obtain ⟨area', hmem, hrest⟩ := ih (show addr - area.length < _ by omega)
        refine ⟨area', mem_cons_of_mem _ hmem, ?_⟩
        rw [locate, if_neg (not_not.2 ht), if_pos ha]
        exact hrest
      · refine ⟨area, mem_cons_self, ?_⟩
        rw [locate, if_neg (not_not.2 ht), if_neg ha]
        omega
    · rw [capacity_cons_of_ne ht] at h
      obtain ⟨area', hmem, hrest⟩ := ih h
      refine ⟨area', mem_cons_of_mem _ hmem, ?_⟩
      rw [locate, if_pos ht]
      exact hrest

instance : Std.Symm StorageArea.Apart := ⟨fun _ _ => Or.symm⟩

theorem locate_injOn (h : areas.Pairwise StorageArea.Apart) {a b : ℕ}
    (ha : a < capacity type areas) (hb : b < capacity type areas)
    (hab : locate type areas a = locate type areas b) : a = b := by
  induction areas generalizing a b with
  | nil => simp [capacity] at ha
  | cons area areas ih =>
    obtain ⟨happart, h⟩ := pairwise_cons.1 h
    by_cases ht : area.type = type
    · rw [capacity_cons_of_eq ht] at ha hb
      have outside : ∀ c, c < capacity type areas → ∀ x < area.length,
          locate type areas c ≠ x + area.offset := by
        intro c hc x hx heq
        obtain ⟨area', hmem, h₁, h₂⟩ := exists_area_locate hc
        rcases happart area' hmem with h' | h' <;> omega
      simp only [locate, ht, ne_eq, not_true_eq_false, if_false] at hab
      split_ifs at hab with h₁ h₂ h₂
      · have := ih h (by omega) (by omega) hab
        omega
      · exact absurd hab (outside _ (by omega) _ (by omega))
      · exact absurd hab.symm (outside _ (by omega) _ (by omega))
      · omega
    · rw [capacity_cons_of_ne ht] at ha hb
      simp only [locate, ne_eq, ht, not_false_eq_true, if_true] at hab
      exact ih h ha hb hab

/-! ## The accesses of the loop -/

/-- The addresses of the accesses. -/
def places (bs : List (ℕ × ℕ)) : List ℕ := bs.flatMap fun b => (range b.2).map (b.1 + ·)

theorem places_cons (b : ℕ × ℕ) (bs : List (ℕ × ℕ)) :
    places (b :: bs) = (range b.2).map (b.1 + ·) ++ places bs := rfl

variable {n : ℕ}

theorem count_of_lt {length : ℕ} (hn : n < 256) :
    count addr n length = if n + addr > length then length - addr else n := by
  rw [count, mod_eq_of_lt hn]

theorem blocks_eq (type : StorageType) (areas : List StorageArea) (addr : ℕ) (hn : n < 256) :
    (blocks type areas addr n).2 = n - (capacity type areas - addr) ∧
      places (blocks type areas addr n).1 =
        (range (min n (capacity type areas - addr))).map
          fun i => locate type areas (addr + i) := by
  induction areas generalizing addr n with
  | nil => simp [blocks, places, capacity]
  | cons area areas ih =>
    by_cases ht : area.type = type
    · rw [capacity_cons_of_eq ht, blocks, if_neg (not_not.2 ht)]
      by_cases ha : addr ≥ area.length
      · rw [if_pos ha]
        obtain ⟨h₁, h₂⟩ := ih (addr - area.length) hn
        rw [h₁, h₂, show area.length + capacity type areas - addr =
          capacity type areas - (addr - area.length) by omega]
        refine ⟨rfl, map_congr_left fun i _ => ?_⟩
        rw [locate, if_neg (not_not.2 ht), if_pos (by omega), Nat.sub_add_comm ha]
      · rw [if_neg ha]
        have inside : ∀ i, addr + i < area.length →
            locate type (area :: areas) (addr + i) = addr + area.offset + i := by
          intro i hi
          rw [locate, if_neg (not_not.2 ht), if_neg (by omega)]
          omega
        simp only [count_of_lt hn]
        by_cases hcross : n + addr > area.length
        · obtain ⟨k, rfl⟩ : ∃ k, n = area.length - addr + k :=
            ⟨n - (area.length - addr), by omega⟩
          obtain ⟨h₁, h₂⟩ := ih 0 (show k < 256 by omega)
          rw [if_pos hcross, if_neg (by omega), Nat.add_sub_cancel_left, h₁]
          refine ⟨by omega, ?_⟩
          rw [places_cons, h₂, Nat.sub_zero, show min (area.length - addr + k)
            (area.length + capacity type areas - addr) =
              area.length - addr + min k (capacity type areas) by omega,
            range_add, map_append, map_map]
          congr 1
          · exact map_congr_left fun i hi => (inside i (by
              rw [mem_range] at hi
              omega)).symm
          · refine map_congr_left fun i _ => ?_
            rw [Function.comp_apply, locate, if_neg (not_not.2 ht), if_pos (by omega)]
            congr 1
            omega
        · rw [if_neg hcross, if_pos (by omega), min_eq_left (by omega)]
          refine ⟨by omega, ?_⟩
          rw [places_cons, places, flatMap_nil, append_nil]
          exact map_congr_left fun i hi => (inside i (by
            rw [mem_range] at hi
            omega)).symm
    · rw [capacity_cons_of_ne ht, blocks, if_pos ht]
      simp only [locate, ne_eq, ht, not_false_eq_true, if_true]
      exact ih addr hn

theorem blocks_places (hn : n < 256) (h : addr + n ≤ capacity type areas) :
    (blocks type areas addr n).2 = 0 ∧ places (blocks type areas addr n).1 =
      (range n).map fun i => locate type areas (addr + i) := by
  obtain ⟨h₁, h₂⟩ := blocks_eq type areas addr hn
  rw [h₁, h₂, min_eq_left (by omega)]
  exact ⟨by omega, rfl⟩

theorem blocks_rest_ne_zero (h : 256 ≤ n ∨ (n ≠ 0 ∧ capacity type areas < addr + n)) :
    (blocks type areas addr n).2 ≠ 0 := by
  induction areas generalizing addr n with
  | nil =>
    rw [blocks]
    omega
  | cons area areas ih =>
    by_cases ht : area.type = type
    · rw [capacity_cons_of_eq ht] at h
      rw [blocks, if_neg (not_not.2 ht)]
      by_cases ha : addr ≥ area.length
      · rw [if_pos ha]
        exact ih (by omega)
      · rw [if_neg ha]
        have hcount : count addr n area.length ≤ n % 256 := by
          unfold count
          split_ifs <;> omega
        have hleft : n - count addr n area.length ≠ 0 ∧ (256 ≤ n - count addr n area.length ∨
            capacity type areas < 0 + (n - count addr n area.length)) := by
          rcases h with h | ⟨hn, h⟩
          · omega
          · by_cases hlt : n < 256
            · rw [count_of_lt hlt]
              split_ifs <;> omega
            · omega
        simp only [if_neg hleft.1]
        exact ih (hleft.2.imp_right fun h => ⟨hleft.1, h⟩)
    · rw [capacity_cons_of_ne ht] at h
      rw [blocks, if_pos ht]
      exact ih h

variable {p : ℕ}

theorem exists_area_places (h : p ∈ places (blocks type areas addr n).1) :
    ∃ area ∈ areas, area.type = type ∧ area.offset ≤ p ∧ p < area.offset + area.length := by
  induction areas generalizing addr n with
  | nil => simp [blocks, places] at h
  | cons area areas ih =>
    by_cases ht : area.type = type
    · rw [blocks, if_neg (not_not.2 ht)] at h
      split_ifs at h with ha
      · obtain ⟨area', hmem, hrest⟩ := ih h
        exact ⟨area', mem_cons_of_mem _ hmem, hrest⟩
      · have hcount : addr + count addr n area.length ≤ area.length := by
          unfold count
          split_ifs <;> omega
        have inside : p ∈ (range (count addr n area.length)).map (addr + area.offset + ·) →
            area.offset ≤ p ∧ p < area.offset + area.length := by
          intro hp
          obtain ⟨i, hi, rfl⟩ := mem_map.1 hp
          rw [mem_range] at hi
          omega
        simp only [] at h
        split_ifs at h
        · rw [places_cons, places, flatMap_nil, append_nil] at h
          exact ⟨area, mem_cons_self, ht, inside h⟩
        · rw [places_cons, mem_append] at h
          rcases h with h | h
          · exact ⟨area, mem_cons_self, ht, inside h⟩
          · obtain ⟨area', hmem, hrest⟩ := ih h
            exact ⟨area', mem_cons_of_mem _ hmem, hrest⟩
    · rw [blocks, if_pos ht] at h
      obtain ⟨area', hmem, hrest⟩ := ih h
      exact ⟨area', mem_cons_of_mem _ hmem, hrest⟩

theorem flatMap_readBlock (storage : ℕ → UInt8) (bs : List (ℕ × ℕ)) :
    (bs.flatMap fun b => Memory.readBlock storage b.1 b.2) = (places bs).map storage := by
  rw [places, map_flatMap]
  simp only [Memory.readBlock, map_map]
  rfl

theorem writeBlocks_of_notMem {storage : ℕ → UInt8} {bs : List (ℕ × ℕ)} {data : List UInt8}
    (h : p ∉ places bs) : writeBlocks storage bs data p = storage p := by
  induction bs generalizing storage data with
  | nil => rfl
  | cons b bs ih =>
    rw [places_cons, mem_append, not_or] at h
    rw [writeBlocks, ih h.2]
    refine Memory.writeBlock_apply_out _ ?_
    by_contra hin
    refine h.1 (mem_map.2 ⟨p - b.1, mem_range.2 ?_, by omega⟩)
    have := length_take_le b.2 data
    omega

theorem writeBlocks_getElem {storage : ℕ → UInt8} {bs : List (ℕ × ℕ)} {data : List UInt8}
    (hn : (places bs).Nodup) {i : ℕ} {x : UInt8} (hp : (places bs)[i]? = some p)
    (hx : data[i]? = some x) : writeBlocks storage bs data p = x := by
  induction bs generalizing storage data i with
  | nil => simp [places] at hp
  | cons b bs ih =>
    rw [places_cons] at hn hp
    obtain ⟨-, hn, hdisj⟩ := nodup_append.1 hn
    rw [writeBlocks]
    by_cases hi : i < b.2
    · rw [getElem?_append_left (by simpa using hi)] at hp
      obtain rfl : b.1 + i = p := by simpa [hi] using hp
      rw [writeBlocks_of_notMem fun hmem => hdisj _ (mem_map.2 ⟨i, mem_range.2 hi, rfl⟩)
        _ hmem rfl]
      obtain ⟨hlt, rfl⟩ := List.getElem?_eq_some_iff.1 hx
      rw [Memory.writeBlock_apply_in _ (by omega) (by rw [length_take]; omega), getElem_take]
      simp
    · rw [getElem?_append_right (by simpa using hi)] at hp
      refine ih hn (i := i - b.2) (by simpa using hp) ?_
      rw [getElem?_drop, Nat.add_sub_cancel' (by omega), hx]

/-- The bytes of a type as an array. -/
def view (layout : Layout) (type : StorageType) (storage : ℕ → UInt8) : ℕ → UInt8 :=
  fun addr => storage (locate type layout.areas addr)

section View

variable {layout : Layout} {storage : ℕ → UInt8} {addr n : ℕ} {data : List UInt8}

theorem readBlock_eq_view (hn : n < 256) (h : addr + n ≤ size layout type) :
    readBlock layout type storage addr n =
      (true, Memory.readBlock (view layout type storage) addr n) := by
  rw [size_eq_capacity] at h
  obtain ⟨h₁, h₂⟩ := blocks_places hn h
  simp only [readBlock, h₁, beq_self_eq_true, flatMap_readBlock, h₂, map_map]
  rfl

theorem readBlock_snd (hn : n < 256) :
    (readBlock layout type storage addr n).2 =
      Memory.readBlock (view layout type storage) addr (min n (size layout type - addr)) := by
  simp only [readBlock, flatMap_readBlock, (blocks_eq _ _ _ hn).2, map_map, size_eq_capacity]
  rfl

theorem writeBlock_answer :
    (writeBlock layout type storage addr data).1 =
      (readBlock layout type storage addr data.length).1 := rfl

theorem view_writeBlock (hn : data.length < 256) (h : addr + data.length ≤ size layout type)
    {a : ℕ} (ha : a < size layout type) :
    view layout type (writeBlock layout type storage addr data).2 a =
      Memory.writeBlock (view layout type storage) addr data a := by
  rw [size_eq_capacity] at h ha
  have hplaces := (blocks_places hn h).2
  by_cases hin : addr ≤ a ∧ a < addr + data.length
  · rw [Memory.writeBlock_apply_in _ hin.1 (by omega)]
    refine writeBlocks_getElem ?_ (i := a - addr) ?_ (getElem?_eq_getElem (by omega))
    · rw [hplaces]
      refine List.Nodup.map_on (fun i hi j hj hij => ?_) nodup_range
      rw [mem_range] at hi hj
      have := locate_injOn layout.apart (by omega) (by omega) hij
      omega
    · rw [hplaces, getElem?_map, getElem?_range (by omega), Option.map_some,
        Nat.add_sub_cancel' hin.1]
  · rw [Memory.writeBlock_apply_out _ (by omega)]
    refine writeBlocks_of_notMem ?_
    rw [hplaces, mem_map]
    rintro ⟨i, hi, heq⟩
    rw [mem_range] at hi
    have := locate_injOn layout.apart (by omega) ha heq
    omega

theorem readBlock_writeBlock_of_ne {type' : StorageType} (h : type' ≠ type) (a m : ℕ) :
    readBlock layout type' (writeBlock layout type storage addr data).2 a m =
      readBlock layout type' storage a m := by
  simp only [readBlock, flatMap_readBlock, Prod.mk.injEq, true_and]
  refine map_congr_left fun p hp => writeBlocks_of_notMem fun hp' => ?_
  obtain ⟨area, hmem, rfl, h₁, h₂⟩ := exists_area_places hp
  obtain ⟨area', hmem', rfl, h₁', h₂'⟩ := exists_area_places hp'
  have hne : area ≠ area' := by
    rintro rfl
    exact h rfl
  rcases layout.apart.forall hmem hmem' hne with hapart | hapart <;> omega

theorem not_completed (h : 256 ≤ n ∨ (n ≠ 0 ∧ size layout type < addr + n)) :
    (readBlock layout type storage addr n).1 = false := by
  rw [size_eq_capacity] at h
  simpa [readBlock] using blocks_rest_ne_zero h

theorem readBlock_zero : (readBlock layout type storage addr 0).1 = true := by
  have hzero : ∀ (areas : List StorageArea) (addr : ℕ), (blocks type areas addr 0).2 = 0 := by
    intro areas
    induction areas with
    | nil => exact fun _ => rfl
    | cons area areas ih =>
      intro addr
      simp only [blocks, Nat.zero_sub, if_true]
      split_ifs
      · exact ih addr
      · exact ih _
      · rfl
  simp only [readBlock, hzero, beq_self_eq_true]

end View

/-- In range a write is read back and leaves all other bytes alone; out of range both accesses fail.
-/
def ActsAsArray (layout : Layout) (type : StorageType) (addr n : ℕ) : Prop :=
  ∀ (storage : ℕ → UInt8) (data : List UInt8), data.length = n →
    if addr + n ≤ size layout type then
      (writeBlock layout type storage addr data).1 = true ∧
      readBlock layout type (writeBlock layout type storage addr data).2 addr n = (true, data) ∧
      (∀ a < size layout type, a < addr ∨ addr + n ≤ a →
        readBlock layout type (writeBlock layout type storage addr data).2 a 1 =
          readBlock layout type storage a 1) ∧
      ∀ type', type' ≠ type → ∀ a m,
        readBlock layout type' (writeBlock layout type storage addr data).2 a m =
          readBlock layout type' storage a m
    else (writeBlock layout type storage addr data).1 = false ∧
      (readBlock layout type storage addr n).1 = false

/-- Accesses behave as those of an array exactly with less than 256 bytes in range, or not empty out
of range. -/
theorem actsAsArray_iff (layout : Layout) (type : StorageType) (addr n : ℕ) :
    ActsAsArray layout type addr n ↔ if addr + n ≤ size layout type then n < 256 else n ≠ 0 := by
  unfold ActsAsArray
  split_ifs with h
  · constructor
    · intro hall
      by_contra hn
      have hwrite := (hall (fun _ => 0) (replicate n 0) (length_replicate ..)).1
      rw [writeBlock_answer, length_replicate, not_completed (.inl (by omega))] at hwrite
      cases hwrite
    · rintro hn storage data rfl
      refine ⟨?_, ?_, fun a ha hout => ?_, fun type' hne a m => readBlock_writeBlock_of_ne hne a m⟩
      · rw [writeBlock_answer, readBlock_eq_view hn h]
      · rw [readBlock_eq_view hn h, Prod.mk.injEq]
        refine ⟨rfl, Eq.trans (Memory.readBlock_congr fun a _ ha => ?_)
          (Memory.readBlock_writeBlock_same (view layout type storage) addr data)⟩
        exact view_writeBlock hn h (by omega)
      · rw [readBlock_eq_view (by decide) (by omega), readBlock_eq_view (by decide) (by omega),
          Prod.mk.injEq]
        refine ⟨rfl, Memory.readBlock_congr fun a' h₁ h₂ => ?_⟩
        rw [view_writeBlock hn h (by omega), Memory.writeBlock_apply_out _ (by omega)]
  · constructor
    · rintro hall rfl
      have hread := (hall (fun _ => 0) [] rfl).2
      rw [readBlock_zero] at hread
      cases hread
    · rintro hn storage data rfl
      rw [writeBlock_answer]
      exact ⟨not_completed (.inr ⟨hn, by omega⟩), not_completed (.inr ⟨hn, by omega⟩)⟩

/-- Writing the first 256 bytes of a mission fails, and an empty read succeeds behind its end. -/
theorem writeBlock_256_fails :
    0 + 256 ≤ size (layoutDefault .four) .mission ∧
      (writeBlock (layoutDefault .four) .mission (fun _ => 0) 0 (replicate 256 1)).1 = false ∧
      3000 + 0 > size (layoutDefault .four) .mission ∧
      (readBlock (layoutDefault .four) .mission (fun _ => 0) 3000 0).1 = true := by
  refine ⟨by decide, ?_, by decide, readBlock_zero⟩
  rw [writeBlock_answer, length_replicate]
  exact not_completed (.inl le_rfl)

end Tm4cPilot.StorageManager
