import Tm4cPilot.Param.Enumerate

/-!
# The walk as a scan of the items

The walk through the tables is a loop over the variables it comes to; behind the variable of the
token it gives the first entry.
-/

namespace Tm4cPilot.Param

open List Loop

/-! ## From tables to items -/

namespace Item

/-- One variable of the walk. -/
def step : Item → Walk → Entry ⊕ Walk
  | var row type ptr, _ => .inl ⟨.set row 0, address ptr, type.code⟩
  | leaf row groupElement type place, w => nextLeaf row groupElement type place w

/-- The variable does not lie at `nullptr`. -/
def NotNull (x : Item) : Prop := ∀ e ∈ x.entries, e.ptr ≠ 0

variable {x : Item} {a : ℤ}

theorem entries_of_place (placed : x.place = some a) :
    x.entries = x.whole a ::
      if x.type = .vector3f then [x.element a 0, x.element a 1, x.element a 2] else [] := by
  rw [entries, placed]

theorem entries_of_unplaced (unplaced : x.place = none) : x.entries = [] := by
  rw [entries, unplaced]

theorem whole_mem_entries (placed : x.place = some a) :
    x.whole a ∈ x.entries := by
  rw [entries_of_place placed]
  exact mem_cons_self

theorem element_mem_entries (placed : x.place = some a)
    (vector : x.type = .vector3f) {k : ℕ} (hk : k < 3) : x.element a k ∈ x.entries := by
  rw [entries_of_place placed, if_pos vector]
  interval_cases k <;> simp

theorem NotNull.of_step (h : x.NotNull) {w : Walk} {e : Entry}
    (he : x.step w = .inl e) : e.ptr ≠ 0 := by
  cases x with
  | var row type ptr =>
    obtain rfl := Sum.inl.inj he
    exact h _ (whole_mem_entries rfl)
  | leaf row groupElement type place =>
    cases place with
    | none =>
      simp only [step, nextLeaf] at he
      split_ifs at he
    | some a =>
      simp only [step, nextLeaf] at he
      split_ifs at he with found same vector
      · obtain rfl := Sum.inl.inj he
        exact h _ (whole_mem_entries rfl)
      · obtain rfl := Sum.inl.inj he
        have placed : (leaf row groupElement type (some a)).place = some a := rfl
        have notNull := h _ (element_mem_entries placed vector.1 vector.2)
        exact notNull

end Item

section Walk

variable {frame : UInt16} {ptrs : Pointers}

theorem nextGroup_eq_each {vindex : ℕ} {info : Info} (g : GroupInfo) {base shift : ℕ} {offset : ℤ}
    (h : ∀ x ∈ groupItems frame ptrs vindex info g base shift offset, x.NotNull) (w : Walk) :
    nextGroup frame ptrs vindex info g base shift offset w =
      each Item.step (groupItems frame ptrs vindex info g base shift offset) w := by
  induction g generalizing base shift offset w with
  | groupEnd => rfl
  | var row type _ rest ih =>
    rw [groupItems, forall_mem_append] at h
    rw [nextGroup, groupItems, each_append, funext (ih h.2)]
    by_cases shown : checkFrameType frame row.flags
    · simp only [if_pos shown, forall_mem_singleton] at h ⊢
      rw [← Item.step]
      cases step : Item.step _ w with
      | inl e =>
        rw [each_cons_of_inl step, Sum.elim_inl, Entry.leave, if_neg (h.1.of_step step)]
        rfl
      | inr w' =>
        rw [each_cons_of_inr step]
        rfl
    · simp only [if_neg shown, each_nil, Sum.elim_inr]
  | group row groupInfo rest ihg ih =>
    rw [groupItems, forall_mem_append] at h
    rw [nextGroup, groupItems, each_append, funext (ih h.2)]
    by_cases shown : checkFrameType frame row.flags
    · simp only [if_pos shown] at h ⊢
      cases new : adjustGroupOffset ptrs info row offset with
      | none => rfl
      | some newOffset =>
        rw [new] at h
        simp only [ihg h.1]
    · simp only [if_neg shown, each_nil, Sum.elim_inr]
  | nullGroup _ rest ih =>
    exact ih h w

theorem nextFrom_eq_each {rows : List Info} {i : ℕ}
    (h : ∀ x ∈ items frame ptrs i rows, x.NotNull) (w : Walk) :
    nextFrom frame ptrs i rows w =
      (each Item.step (items frame ptrs i rows) w).getLeft? := by
  induction rows generalizing i w with
  | nil => rfl
  | cons info rest ih =>
    rw [items, forall_mem_append] at h
    rw [nextFrom, items, each_append, funext (ih h.2), rowItems]
    rw [rowItems] at h
    by_cases shown : checkFrameType frame info.flags
    · simp only [if_pos shown] at h ⊢
      cases content : info.content with
      | var type d =>
        simp only [content, forall_mem_singleton] at h ⊢
        have notNull : address info.ptr ≠ 0 := h.1 _ (Item.whole_mem_entries rfl)
        rw [Entry.returned, if_neg notNull]
        rfl
      | group g =>
        simp only [content] at h ⊢
        rw [nextGroup_eq_each g h.1]
        cases each Item.step (groupItems frame ptrs i info g 0 0 0) w <;> rfl
      | nullGroup => rfl
    · simp only [if_neg shown, each_nil, Sum.elim_inr]

end Walk

namespace Item

variable {x : Item} {a : ℤ} {t : Token}

theorem step_found (placed : x.place = some a) : x.step ⟨true, t⟩ = .inl (x.whole a) := by
  cases x with
  | var row type ptr =>
    obtain rfl := Option.some.inj placed
    rfl
  | leaf row groupElement type place =>
    obtain rfl : place = some a := placed
    rfl

theorem step_found_unplaced (unplaced : x.place = none) :
    x.step ⟨true, t⟩ = .inr ⟨true, .set x.row x.groupElement⟩ := by
  cases x with
  | var row type ptr => cases unplaced
  | leaf row groupElement type place =>
    obtain rfl : place = none := unplaced
    rfl

theorem step_other (hx : x.IsLeaf) (other : x.groupElement ≠ t.groupElement) :
    x.step ⟨false, t⟩ = .inr ⟨false, t⟩ := by
  cases x with
  | var row type ptr => cases hx
  | leaf row groupElement type place => exact if_neg other

theorem step_element (hx : x.IsLeaf) (same : x.groupElement = t.groupElement)
    (vector : x.type = .vector3f ∧ t.idx < 3) :
    x.step ⟨false, t⟩ = match x.place with
      | none => .inr ⟨true, t.nextElement⟩
      | some a => .inl ⟨t.nextElement, address (a + 4 * t.idx), VarType.float.code⟩ := by
  cases x with
  | var row type ptr => cases hx
  | leaf row groupElement type place => exact (if_pos same).trans (if_pos vector)

theorem step_last (hx : x.IsLeaf) (same : x.groupElement = t.groupElement)
    (last : ¬(x.type = .vector3f ∧ t.idx < 3)) : x.step ⟨false, t⟩ = .inr ⟨true, t⟩ := by
  cases x with
  | var row type ptr => cases hx
  | leaf row groupElement type place => exact (if_pos same).trans (if_neg last)

end Item

/-! ## The whole scan -/

section Scan

variable {x : Item} {a : ℤ} {t : Token} {before after : List Item}

theorem each_found (xs : List Item) (t : Token) :
    (each Item.step xs ⟨true, t⟩).getLeft? = (xs.flatMap Item.entries).head? := by
  induction xs generalizing t with
  | nil => rfl
  | cons x xs ih =>
    rw [flatMap_cons]
    cases place : x.place with
    | none =>
      rw [each_cons_of_inr (Item.step_found_unplaced place), ih,
        Item.entries_of_unplaced place, nil_append]
    | some a =>
      rw [each_cons_of_inl (Item.step_found place), Item.entries_of_place place]
      rfl

/-- If the variable of the token is the first one that fits, the scan goes on behind it. -/
theorem each_refound (others : ∀ y ∈ before, y.IsLeaf ∧ y.groupElement ≠ t.groupElement)
    (hx : x.IsLeaf) (same : x.groupElement = t.groupElement) (placed : x.place = some a) :
    (each Item.step (before ++ x :: after) ⟨false, t⟩).getLeft? =
      if x.type = .vector3f ∧ t.idx < 3 then
        some ⟨t.nextElement, address (a + 4 * t.idx), VarType.float.code⟩
      else (after.flatMap Item.entries).head? := by
  rw [each_append_of_skip fun y hy => Item.step_other (others y hy).1 (others y hy).2]
  by_cases vector : x.type = .vector3f ∧ t.idx < 3
  · have step := Item.step_element hx same vector
    rw [placed] at step
    rw [each_cons_of_inl step, if_pos vector]
    rfl
  · rw [each_cons_of_inr (Item.step_last hx same vector), if_neg vector, each_found]

theorem exists_head_entries (placed : x.place = some a) (before after : List Item) :
    ∃ f ∈ (before ++ [x]).flatMap Item.entries,
      ((before ++ x :: after).flatMap Item.entries).head? = some f := by
  have split : (before ++ x :: after).flatMap Item.entries =
      (before ++ [x]).flatMap Item.entries ++ after.flatMap Item.entries := by
    rw [← flatMap_append, append_assoc, singleton_append]
  have nonempty : (before ++ [x]).flatMap Item.entries ≠ [] :=
    ne_nil_of_mem (mem_flatMap.2
      ⟨x, mem_append_right before mem_cons_self, Item.whole_mem_entries placed⟩)
  refine ⟨_, head_mem nonempty, ?_⟩
  rw [split, List.head?_append_of_ne_nil _ nonempty, List.head?_eq_some_head]

theorem each_lost (placed : x.place = some a)
    (lost : ¬((∀ y ∈ before, y.IsLeaf ∧ y.groupElement ≠ t.groupElement) ∧ x.IsLeaf)) :
    ∃ f, (each Item.step (before ++ x :: after) ⟨false, t⟩).getLeft? = some f ∧
      (f.token.idx ≠ 0 ∨ f ∈ (before ++ [x]).flatMap Item.entries) := by
  induction before with
  | nil =>
    cases x with
    | var row type ptr =>
      refine ⟨_, rfl, .inr ?_⟩
      exact mem_append_left _ (Item.whole_mem_entries rfl)
    | leaf row groupElement type place => exact absurd ⟨by simp, trivial⟩ lost
  | cons y before ih =>
    have mem_of_tail : ∀ {f}, f ∈ (before ++ [x]).flatMap Item.entries →
        f ∈ (y :: before ++ [x]).flatMap Item.entries := fun h => by
      exact mem_append_right _ h
    -- once something has been taken for the variable, the scan ends before it or at it
    have found : ∀ t', y.step ⟨false, t⟩ = .inr ⟨true, t'⟩ → ∃ f,
        (each Item.step (y :: before ++ x :: after) ⟨false, t⟩).getLeft? = some f ∧
          (f.token.idx ≠ 0 ∨ f ∈ (y :: before ++ [x]).flatMap Item.entries) := by
      intro t' step
      obtain ⟨f, mem, head⟩ := exists_head_entries placed before after
      refine ⟨f, ?_, .inr (mem_of_tail mem)⟩
      rw [cons_append, each_cons_of_inr step, each_found, head]
    by_cases hy : y.IsLeaf
    · by_cases same : y.groupElement = t.groupElement
      · by_cases vector : y.type = .vector3f ∧ t.idx < 3
        · have step := Item.step_element hy same vector
          cases place : y.place with
          | none => exact found _ (by rw [step, place])
          | some b =>
            rw [place] at step
            refine ⟨_, by rw [cons_append, each_cons_of_inl step]; rfl, .inl ?_⟩
            exact Nat.succ_ne_zero _
        · exact found _ (Item.step_last hy same vector)
      · obtain ⟨f, hf, mem⟩ := ih fun h => lost ⟨forall_mem_cons.2 ⟨⟨hy, same⟩, h.1⟩, h.2⟩
        refine ⟨f, ?_, mem.imp_right mem_of_tail⟩
        rw [cons_append, each_cons_of_inr (Item.step_other hy same), hf]
    · cases y with
      | var row type ptr =>
        refine ⟨_, rfl, .inr ?_⟩
        exact mem_append_left _ (Item.whole_mem_entries rfl)
      | leaf row groupElement type place => exact absurd trivial hy

end Scan

end Tm4cPilot.Param
