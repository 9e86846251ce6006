import Tm4cPilot.Param.Enumerate
import Tm4cPilot.Param.Save

/-!
# The variables in table order

The items come in the order of their rows, and are told apart by rows and identifiers.
-/

namespace Tm4cPilot.Param

open List

/-- A row of `_var_info` with type `AP_PARAM_GROUP`. -/
def Content.IsGroup : Content → Prop
  | .var _ _ => False
  | .group _ | .nullGroup => True

section Items

variable {frame : UInt16} {ptrs : Pointers}

variable {info : Info} {x : Item}

theorem leaf_of_mem_groupItems {vindex : ℕ} {g : GroupInfo} {base shift : ℕ} {offset : ℤ}
    (h : x ∈ groupItems frame ptrs vindex info g base shift offset) :
    x.IsLeaf ∧ x.row = vindex := by
  induction g generalizing base shift offset with
  | groupEnd => cases h
  | var row type _ rest ih =>
    rcases mem_append.1 h with h | h
    · split_ifs at h
      · rw [mem_singleton.1 h]
        exact ⟨trivial, rfl⟩
      · cases h
    · exact ih h
  | group row groupInfo rest ihg ih =>
    rcases mem_append.1 h with h | h
    · split_ifs at h
      · cases new : adjustGroupOffset ptrs info row offset with
        | none =>
          rw [new] at h
          cases h
        | some newOffset =>
          rw [new] at h
          exact ihg h
      · cases h
    · exact ih h
  | nullGroup _ rest ih => exact ih h

variable {i : ℕ}

theorem mem_rowItems (h : x ∈ rowItems frame ptrs i info) :
    (∃ type d, info.content = .var type d ∧ x = .var i type info.ptr ∧
      rowItems frame ptrs i info = [x]) ∨
    ∃ g, info.content = .group g ∧ x ∈ groupItems frame ptrs i info g 0 0 0 := by
  unfold rowItems at h ⊢
  split_ifs at h ⊢
  · cases content : info.content with
    | var type d =>
      simp only [content, mem_singleton] at h ⊢
      exact .inl ⟨type, d, rfl, h, by rw [h]⟩
    | group g =>
      rw [content] at h
      exact .inr ⟨g, rfl, h⟩
    | nullGroup =>
      rw [content] at h
      cases h
  · cases h

theorem row_of_mem_rowItems (h : x ∈ rowItems frame ptrs i info) : x.row = i := by
  rcases mem_rowItems h with ⟨type, d, -, rfl, -⟩ | ⟨g, -, mem⟩
  · rfl
  · exact (leaf_of_mem_groupItems mem).2

theorem items_append (i : ℕ) (rows rows' : List Info) :
    items frame ptrs i (rows ++ rows') =
      items frame ptrs i rows ++ items frame ptrs (i + rows.length) rows' := by
  induction rows generalizing i with
  | nil => rfl
  | cons info rows ih =>
    rw [cons_append, items, items, ih, append_assoc, length_cons, add_assoc, add_comm 1]

variable {rows : List Info}

theorem mem_items (h : x ∈ items frame ptrs i rows) :
    ∃ j info, rows[j]? = some info ∧ x.row = i + j ∧ x ∈ rowItems frame ptrs x.row info := by
  induction rows generalizing i with
  | nil => cases h
  | cons info rows ih =>
    rcases mem_append.1 h with h | h
    · refine ⟨0, info, rfl, row_of_mem_rowItems h, ?_⟩
      rw [row_of_mem_rowItems h]
      exact h
    · obtain ⟨j, info', hj, row, mem⟩ := ih h
      exact ⟨j + 1, info', hj, by omega, mem⟩

theorem le_row (h : x ∈ items frame ptrs i rows) : i ≤ x.row := by
  obtain ⟨j, -, -, row, -⟩ := mem_items h
  omega

theorem row_lt (h : x ∈ items frame ptrs i rows) : x.row < i + rows.length := by
  obtain ⟨j, info, hj, row, -⟩ := mem_items h
  have := (List.getElem?_eq_some_iff.1 hj).1
  omega

variable {r : ℕ}

theorem items_drop {varInfo : List Info} (hr : r ≤ varInfo.length) :
    items frame ptrs 0 varInfo =
      items frame ptrs 0 (varInfo.take r) ++ items frame ptrs r (varInfo.drop r) := by
  have h : items frame ptrs 0 (varInfo.take r ++ varInfo.drop r) = _ := items_append 0 _ _
  rwa [take_append_drop, length_take_of_le hr, zero_add] at h

/-! ## The order of the items -/

/-- In an earlier row, or under another identifier. -/
def Item.Before (x y : Item) : Prop :=
  x.row < y.row ∨ x.row = y.row ∧ x.groupElement ≠ y.groupElement

theorem Item.before_irrefl : ¬x.Before x := by
  simp [Item.Before]

theorem groupItems_sublist {vindex : ℕ} {g : GroupInfo} {base shift : ℕ} {offset : ℤ} :
    ((groupItems frame ptrs vindex info g base shift offset).map Item.groupElement).Sublist
      ((leaves g base shift).map Prod.fst) := by
  induction g generalizing base shift offset with
  | groupEnd => exact List.Sublist.refl _
  | var row type _ rest ih =>
    rw [groupItems, leaves, map_append, map_cons]
    split_ifs
    · exact ih.cons_cons _
    · exact ih.cons _
  | group row groupInfo rest ihg ih =>
    rw [groupItems, leaves, map_append, map_append]
    refine List.Sublist.append ?_ ih
    split_ifs
    · cases adjustGroupOffset ptrs info row offset with
      | none => exact nil_sublist _
      | some newOffset => exact ihg
    · exact nil_sublist _
  | nullGroup _ rest ih => exact ih

theorem rowItems_sublist :
    ((rowItems frame ptrs i info).map Item.groupElement).Sublist
      (info.vars.map VarId.groupElement) := by
  unfold rowItems Info.vars
  split_ifs
  · cases info.content with
    | var type d => exact List.Sublist.refl _
    | group g =>
      rw [map_map]
      exact groupItems_sublist
    | nullGroup => exact List.Sublist.refl _
  · exact nil_sublist _

theorem rowItems_ordered (distinct : (info.vars.map fun v => (v.key, v.groupElement)).Nodup) :
    (rowItems frame ptrs i info).Pairwise Item.Before := by
  have nodup : (info.vars.map VarId.groupElement).Nodup := by
    refine List.Nodup.of_map (info.key, ·) ?_
    rw [map_map]
    rwa [map_congr_left fun v hv => by rw [Function.comp_apply, ← key_of_mem_vars hv]]
  have sub : ((rowItems frame ptrs i info).map Item.groupElement).Sublist _ := rowItems_sublist
  exact (pairwise_map.1 (nodup.sublist sub)).imp_of_mem fun hx hy h =>
    .inr ⟨(row_of_mem_rowItems hx).trans (row_of_mem_rowItems hy).symm, h⟩

theorem items_ordered (distinct : ((vars rows).map fun v => (v.key, v.groupElement)).Nodup)
    (i : ℕ) : (items frame ptrs i rows).Pairwise Item.Before := by
  induction rows generalizing i with
  | nil => exact List.Pairwise.nil
  | cons info rows ih =>
    have hvars : vars (info :: rows) = info.vars ++ vars rows := flatMap_cons
    rw [hvars, map_append, nodup_append'] at distinct
    refine pairwise_append.2 ⟨rowItems_ordered distinct.1, ih distinct.2.1 (i + 1), ?_⟩
    intro x hx y hy
    refine .inl ?_
    rw [row_of_mem_rowItems hx]
    exact le_row hy

variable {varInfo : List Info} {x : Item} {before after : List Item}

section

variable (split : items frame ptrs 0 varInfo = before ++ x :: after)
include split

theorem before_of_mem {y : Item} (ordered : (items frame ptrs 0 varInfo).Pairwise Item.Before)
    (hy : y ∈ before) : y.Before x := by
  rw [split] at ordered
  exact (pairwise_append.1 ordered).2.2 y hy x mem_cons_self

theorem items_split (hr : r ≤ x.row) :
    ∃ between, items frame ptrs r (varInfo.drop r) = between ++ x :: after ∧
      ∀ y ∈ between, y ∈ before ∧ r ≤ y.row := by
  have hx : x ∈ items frame ptrs 0 varInfo := by simp [split]
  have length : r ≤ varInfo.length := by
    have := row_lt hx
    omega
  have from_r : ∀ y ∈ items frame ptrs r (varInfo.drop r), r ≤ y.row := fun y hy => le_row hy
  rw [items_drop length] at split
  rcases append_eq_append_iff.1 split with ⟨between, rfl, tail⟩ | ⟨extra, head, tail⟩
  · refine ⟨between, tail, fun y hy => ⟨mem_append_right _ hy, from_r y ?_⟩⟩
    rw [tail]
    exact mem_append_left _ hy
  · cases extra with
    | nil => exact ⟨[], tail.symm, by simp⟩
    | cons x' extra =>
      -- the variable itself lies in an earlier row
      obtain ⟨rfl, -⟩ := cons.inj tail
      have early : x ∈ items frame ptrs 0 (varInfo.take r) := by simp [head]
      have := row_lt early
      rw [length_take] at this
      omega

theorem mem_between {between : List Item} {z : Item}
    (ordered : (items frame ptrs 0 varInfo).Pairwise Item.Before)
    (tail : items frame ptrs r (varInfo.drop r) = between ++ x :: after)
    (hz : z ∈ items frame ptrs 0 varInfo) (hr : r ≤ z.row) (lt : z.row < x.row) : z ∈ between := by
  have hx : x ∈ items frame ptrs 0 varInfo := by simp [split]
  have length : r ≤ varInfo.length := by
    have := row_lt hx
    omega
  rw [items_drop length, tail] at hz
  rcases mem_append.1 hz with hz | hz
  · have := row_lt hz
    rw [length_take] at this
    omega
  · rcases mem_append.1 hz with hz | hz
    · exact hz
    · rcases mem_cons.1 hz with rfl | hz
      · exact absurd lt (lt_irrefl _)
      · rw [split, pairwise_append, pairwise_cons] at ordered
        rcases ordered.2.1.1 z hz with gt | ⟨eq, -⟩ <;> omega

end

theorem isLeaf_iff (h : x ∈ rowItems frame ptrs i info) : x.IsLeaf ↔ info.content.IsGroup := by
  rcases mem_rowItems h with ⟨type, d, content, rfl, -⟩ | ⟨g, content, mem⟩
  · rw [content]
    exact Iff.rfl
  · rw [content]
    exact iff_of_true (leaf_of_mem_groupItems mem).1 trivial

theorem exists_row (hx : x ∈ items frame ptrs 0 varInfo) :
    ∃ info, varInfo[x.row]? = some info ∧ x ∈ rowItems frame ptrs x.row info := by
  obtain ⟨j, info, hj, row, mem⟩ := mem_items hx
  rw [zero_add] at row
  exact ⟨info, row ▸ hj, mem⟩

theorem isLeaf_of_row_eq {y : Item} (hx : x ∈ items frame ptrs 0 varInfo)
    (hy : y ∈ items frame ptrs 0 varInfo) (same : y.row = x.row) (leaf : x.IsLeaf) : y.IsLeaf := by
  obtain ⟨info, row, mem⟩ := exists_row hx
  obtain ⟨info', row', mem'⟩ := exists_row hy
  rw [same, row] at row'
  obtain rfl := Option.some.inj row'
  exact (isLeaf_iff mem').2 ((isLeaf_iff mem).1 leaf)

theorem groupElement_lt_of_mem_items (accepted : checkVarInfo varInfo = true)
    (hx : x ∈ items frame ptrs 0 varInfo) : x.groupElement < 2 ^ 18 := by
  obtain ⟨info, row, mem⟩ := exists_row hx
  obtain ⟨v, hv, id⟩ := mem_map.1 (rowItems_sublist.subset (mem_map_of_mem mem))
  rw [← id]
  exact groupElement_lt accepted (mem_flatMap.2 ⟨info, mem_of_getElem? row, hv⟩)

theorem items_row (row : varInfo[r]? = some info) :
    items frame ptrs r (varInfo.drop r) =
      rowItems frame ptrs r info ++ items frame ptrs (r + 1) (varInfo.drop (r + 1)) := by
  obtain ⟨hr, rfl⟩ := List.getElem?_eq_some_iff.1 row
  rw [drop_eq_getElem_cons hr, items]

theorem mem_items_of_row (row : varInfo[r]? = some info) (h : x ∈ rowItems frame ptrs r info) :
    x ∈ items frame ptrs 0 varInfo := by
  rw [items_drop (List.getElem?_eq_some_iff.1 row).1.le, items_row row]
  exact mem_append_right _ (mem_append_left _ h)

theorem items_behind_var {row ptr : ℕ} {type : VarType}
    (ordered : (items frame ptrs 0 varInfo).Pairwise Item.Before)
    (split : items frame ptrs 0 varInfo = before ++ .var row type ptr :: after) :
    ∃ info d, varInfo[row]? = some info ∧ info.content = .var type d ∧ info.ptr = ptr ∧
      items frame ptrs (row + 1) (varInfo.drop (row + 1)) = after := by
  have hx : .var row type ptr ∈ items frame ptrs 0 varInfo := by simp [split]
  obtain ⟨info, hrow, mem⟩ := exists_row hx
  rcases mem_rowItems mem with ⟨type', d, content, same, single⟩ | ⟨g, -, mem⟩
  · obtain ⟨-, rfl, rfl⟩ := Item.var.inj same
    refine ⟨info, d, hrow, content, rfl, ?_⟩
    obtain ⟨between, tail, earlier⟩ := items_split split le_rfl
    rw [items_row hrow, single] at tail
    cases between with
    | nil => exact (cons.inj tail).2
    | cons y between =>
      obtain ⟨rfl, -⟩ := cons.inj tail
      exact absurd (before_of_mem split ordered (earlier _ mem_cons_self).1) Item.before_irrefl
  · cases (leaf_of_mem_groupItems mem).1

end Items

end Tm4cPilot.Param
