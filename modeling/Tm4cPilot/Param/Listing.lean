import Tm4cPilot.Param.Items
import Tm4cPilot.Param.Scan

/-!
# Does the enumeration list the variables?

`first` gives row 0 whatever its frame flags are, and a token keeps 9 bits of its row. So the walk
from a shortened row must come to the variable of the token first.
-/

namespace Tm4cPilot.Param

open List Enumeration Item Option Nat

section Listing

variable (frame : UInt16) (ptrs : Pointers) (varInfo : List Info)

/-- `first` and `next` yield each variable once, in order. -/
structure Enumerates : Prop where
  returns : Loop.Returns (Enumeration.body Entry.token (next frame ptrs varInfo))
    (first ptrs varInfo, []) (listing frame ptrs varInfo)
  once : ((listing frame ptrs varInfo).map Entry.token).Nodup
  resumes : Enumeration.Follows Entry.token (next frame ptrs varInfo) (listing frame ptrs varInfo)

/-- No variable lies at `nullptr`. -/
def NoneAtNull : Prop := ∀ frame, ∀ e ∈ listing frame ptrs varInfo, e.ptr ≠ 0

/-- From the shortened row on, it is the first that fits its token. -/
def Refound (x : Item) : Prop :=
  x.IsLeaf ∧ (∀ info ∈ varInfo[x.row % 2 ^ 9]?, info.content.IsGroup) ∧
    ∀ z ∈ items frame ptrs 0 varInfo, x.row % 2 ^ 9 ≤ z.row → z.row < x.row →
      z.IsLeaf ∧ z.groupElement ≠ x.groupElement

/-- Row 0 is shown, and variables beyond row 511 are found again. -/
structure Tellable : Prop where
  shown : ∀ info ∈ varInfo.head?, checkFrameType frame info.flags = true
  refound : ∀ x ∈ items frame ptrs 0 varInfo, 2 ^ 9 ≤ x.row → x.place ≠ none →
    Refound frame ptrs varInfo x

variable {frame ptrs varInfo}

theorem enumerates_iff : Enumerates frame ptrs varInfo ↔
    first ptrs varInfo = (listing frame ptrs varInfo).head? ∧
      Enumeration.Follows Entry.token (next frame ptrs varInfo) (listing frame ptrs varInfo) := by
  constructor
  · intro h
    exact returns_iff.1 h.returns
  · intro h
    exact ⟨returns_iff.2 h, h.2.nodup, h.2⟩

theorem NoneAtNull.notNull (h : NoneAtNull ptrs varInfo) {x : Item}
    (hx : x ∈ items frame ptrs 0 varInfo) : x.NotNull := fun e he =>
  h frame e (mem_flatMap.2 ⟨x, hx, he⟩)

theorem checkFrameType_all (flags : UInt16) : checkFrameType 0xFFFF flags = true := by
  rw [checkFrameType, decide_eq_true_iff]
  by_cases zero : flags >>> 5 = 0
  · exact .inl zero
  · refine .inr fun h => zero ?_
    rwa [show (0xFFFF : UInt16) = -1 from rfl, UInt16.and_neg_one] at h

variable {info : Info} {type : VarType} {d : Single}

theorem NoneAtNull.notNull_row (h : NoneAtNull ptrs varInfo) {r : ℕ}
    (row : varInfo[r]? = some info) (content : info.content = .var type d) :
    (Item.var r type info.ptr).NotNull := by
  have mem : .var r type info.ptr ∈ rowItems 0xFFFF ptrs r info := by
    rw [rowItems, if_pos (checkFrameType_all _), content]
    exact mem_cons_self
  exact h.notNull (mem_items_of_row row mem)

/-! ## The variable behind a token -/

theorem next_of_group {token : Token} (row : varInfo[token.key]? = some info)
    (group : info.content.IsGroup) : next frame ptrs varInfo token =
      nextFrom frame ptrs token.key (varInfo.drop token.key) ⟨false, token⟩ := by
  rw [next, row]
  cases content : info.content with
  | var type d =>
    rw [content] at group
    cases group
  | group g => simp only [content]
  | nullGroup => simp only [content]

theorem next_of_var {token : Token} (row : varInfo[token.key]? = some info)
    (content : info.content = .var type d) :
    next frame ptrs varInfo token =
      if type = .vector3f ∧ token.idx < 3 then
        Entry.returned ⟨token.nextElement, address (info.ptr + 4 * token.idx), VarType.float.code⟩
      else nextFrom frame ptrs (token.key + 1) (varInfo.drop (token.key + 1)) ⟨true, token⟩ := by
  rw [next, row]
  simp only [content]

theorem nextFrom_drop (h : NoneAtNull ptrs varInfo) {r : ℕ} (hr : r ≤ varInfo.length)
    (w : Walk) : nextFrom frame ptrs r (varInfo.drop r) w =
      (Loop.each step (items frame ptrs r (varInfo.drop r)) w).getLeft? := by
  apply nextFrom_eq_each
  intro x hx
  apply h.notNull
  rw [items_drop hr]
  exact mem_append_right _ hx

/-- The token of a variable, at its element `k - 1`. -/
def Item.token (x : Item) (k : ℕ) : Token := { Token.set x.row x.groupElement with idx := k }

variable {x : Item} {a : ℤ} {before after : List Item}

theorem Item.token_groupElement (accepted : checkVarInfo varInfo = true)
    (hx : x ∈ items frame ptrs 0 varInfo) (k : ℕ) : (x.token k).groupElement = x.groupElement :=
  mod_eq_of_lt (groupElement_lt_of_mem_items accepted hx)

theorem Item.token_key_le (x : Item) (k : ℕ) : (x.token k).key ≤ x.row := mod_le _ _

theorem Item.token_key_lt (hx : x ∈ items frame ptrs 0 varInfo) (k : ℕ) :
    (x.token k).key < varInfo.length := by
  have := x.token_key_le k
  have := row_lt hx
  omega

theorem Refound.next_eq (h : Refound frame ptrs varInfo x)
    (accepted : checkVarInfo varInfo = true) (null : NoneAtNull ptrs varInfo)
    (ordered : (items frame ptrs 0 varInfo).Pairwise Item.Before)
    (split : items frame ptrs 0 varInfo = before ++ x :: after) (placed : x.place = some a)
    (k : ℕ) : next frame ptrs varInfo (x.token k) =
      if x.type = .vector3f ∧ k < 3 then some (x.element a k)
      else (after.flatMap Item.entries).head? := by
  obtain ⟨leaf, group, others⟩ := h
  have hx : x ∈ items frame ptrs 0 varInfo := by simp [split]
  have same := token_groupElement accepted hx k
  have hlt := token_key_lt hx k
  have row := getElem?_eq_getElem hlt
  obtain ⟨between, tail, earlier⟩ := items_split split (x.token_key_le k)
  rw [next_of_group row (group _ row), nextFrom_drop null hlt.le, tail]
  refine each_refound (fun y hy => ?_) leaf same.symm placed
  obtain ⟨mem, from_row⟩ := earlier y hy
  have hy : y ∈ items frame ptrs 0 varInfo := by simp [split, mem]
  rw [same]
  rcases before_of_mem split ordered mem with lt | ⟨eq, ne⟩
  · exact others y hy from_row lt
  · exact ⟨isLeaf_of_row_eq hx hy eq leaf, ne⟩

theorem next_token_var {row ptr : ℕ} (null : NoneAtNull ptrs varInfo)
    (ordered : (items frame ptrs 0 varInfo).Pairwise Item.Before)
    (split : items frame ptrs 0 varInfo = before ++ .var row type ptr :: after)
    (small : row < 2 ^ 9) (k : ℕ) :
    next frame ptrs varInfo ((Item.var row type ptr).token k) =
      if type = .vector3f ∧ k < 3 then some ((Item.var row type ptr).element ptr k)
      else (after.flatMap Item.entries).head? := by
  have hx : .var row type ptr ∈ items frame ptrs 0 varInfo := by simp [split]
  have key : ((Item.var row type ptr).token k).key = row := mod_eq_of_lt small
  obtain ⟨info, d, hrow, content, rfl, tail⟩ := items_behind_var ordered split
  have hlt := (List.getElem?_eq_some_iff.1 hrow).1
  have token_row : varInfo[((Item.var row type info.ptr).token k).key]? = some info := by
    rw [key, hrow]
  rw [next_of_var token_row content, key, nextFrom_drop null hlt, tail, each_found]
  by_cases vector : type = .vector3f ∧ k < 3
  · have notNull := null.notNull hx _
      (element_mem_entries (show (Item.var row type info.ptr).place = _ from rfl)
        vector.1 vector.2)
    rw [if_pos vector]
    exact (if_pos vector).trans (if_neg notNull)
  · rw [if_neg vector]
    exact if_neg vector

/-! ## The condition suffices -/

theorem refound_of_lt (hx : x ∈ items frame ptrs 0 varInfo) (leaf : x.IsLeaf)
    (small : x.row < 2 ^ 9) : Refound frame ptrs varInfo x := by
  obtain ⟨info, row, mem⟩ := exists_row hx
  rw [Refound, mod_eq_of_lt small]
  refine ⟨leaf, fun info' row' => ?_, fun z _ ge lt => absurd lt (not_lt.2 ge)⟩
  obtain rfl := some.inj (row.symm.trans row')
  exact (isLeaf_iff mem).1 leaf

theorem Tellable.next_eq (h : Tellable frame ptrs varInfo) (accepted : checkVarInfo varInfo = true)
    (null : NoneAtNull ptrs varInfo) (ordered : (items frame ptrs 0 varInfo).Pairwise Item.Before)
    (split : items frame ptrs 0 varInfo = before ++ x :: after) (placed : x.place = some a)
    (k : ℕ) : next frame ptrs varInfo (x.token k) =
      if x.type = .vector3f ∧ k < 3 then some (x.element a k)
      else (after.flatMap Item.entries).head? := by
  have hx : x ∈ items frame ptrs 0 varInfo := by simp [split]
  have refound : ¬x.row < 2 ^ 9 → Refound frame ptrs varInfo x := fun large =>
    h.refound x hx (not_lt.1 large) (by simp [placed])
  cases x with
  | var row type ptr =>
    by_cases small : row < 2 ^ 9
    · obtain rfl := some.inj placed
      exact next_token_var null ordered split small k
    · cases (refound small).1
  | leaf row groupElement type place =>
    by_cases small : row < 2 ^ 9
    · exact (refound_of_lt hx trivial small).next_eq accepted null ordered split placed k
    · exact (refound small).next_eq accepted null ordered split placed k

theorem Tellable.follows (h : Tellable frame ptrs varInfo) (accepted : checkVarInfo varInfo = true)
    (null : NoneAtNull ptrs varInfo) (ordered : (items frame ptrs 0 varInfo).Pairwise Item.Before) :
    Enumeration.Follows Entry.token (next frame ptrs varInfo) (listing frame ptrs varInfo) := by
  apply Enumeration.Follows.flatMap
  intro before x after split tail
  cases place : x.place with
  | none =>
    rw [entries_of_unplaced place]
    exact tail
  | some a =>
    have next_eq := h.next_eq accepted null ordered split place
    rw [entries_of_place place]
    by_cases vector : x.type = .vector3f
    · simp only [vector, true_and] at next_eq
      rw [if_pos vector]
      refine follows_cons.2 ⟨next_eq 0, follows_cons.2 ⟨next_eq 1, ?_⟩⟩
      exact follows_cons.2 ⟨next_eq 2, follows_cons.2 ⟨next_eq 3, tail⟩⟩
    · simp only [vector, false_and, if_false] at next_eq
      rw [if_neg vector]
      exact follows_cons.2 ⟨next_eq 0, tail⟩

theorem first_row {rest : List Info} (accepted : checkVarInfo (info :: rest) = true) :
    ∃ type d, info.content = .var type d ∧ hasFlag info.flags flagPointer = false := by
  unfold checkVarInfo checkVarInfoFrom at accepted
  cases content : info.content with
  | var type d =>
    simp only [content] at accepted
    split_ifs at accepted with _ _ pointer
    exact ⟨type, d, rfl, by simpa using pointer⟩
  | group g => simp [content] at accepted
  | nullGroup => simp [content] at accepted

theorem first_eq {rest : List Info} (null : NoneAtNull ptrs (info :: rest))
    (content : info.content = .var type d) (pointer : hasFlag info.flags flagPointer = false) :
    first ptrs (info :: rest) = some ((Item.var 0 type info.ptr).whole info.ptr) := by
  have base : getBase ptrs info = some (info.ptr : ℤ) := by
    rw [getBase, pointer]
    rfl
  have notNull := null.notNull_row (r := 0) rfl content _ (whole_mem_entries rfl)
  rw [first, base, content]
  exact if_neg notNull

theorem Tellable.first_eq_head (h : Tellable frame ptrs varInfo)
    (accepted : checkVarInfo varInfo = true) (null : NoneAtNull ptrs varInfo) :
    first ptrs varInfo = (listing frame ptrs varInfo).head? := by
  cases varInfo with
  | nil => rfl
  | cons info rest =>
    obtain ⟨type, d, content, pointer⟩ := first_row accepted
    rw [first_eq null content pointer, listing, items, rowItems, if_pos (h.shown info rfl), content]
    rfl

/-! ## The condition is necessary -/

variable (frame ptrs varInfo before x) in
/-- The token leads back, or into a vector. -/
def Astray (k : ℕ) : Prop :=
  ∃ f, next frame ptrs varInfo (x.token k) = some f ∧
    (f.token.idx ≠ 0 ∨ f ∈ (before ++ [x]).flatMap Item.entries)

theorem idx_of_head_entries {xs : List Item} {f : Entry}
    (h : (xs.flatMap Item.entries).head? = some f) : f.token.idx = 0 := by
  induction xs with
  | nil => cases h
  | cons x xs ih =>
    rw [flatMap_cons] at h
    cases place : x.place with
    | none =>
      rw [entries_of_unplaced place] at h
      exact ih h
    | some a =>
      rw [entries_of_place place] at h
      obtain rfl := some.inj h
      rfl

theorem exists_last_entry (placed : x.place = some a) :
    ∃ entries k e, x.entries = entries ++ [e] ∧ e.token = x.token k := by
  rw [entries_of_place placed]
  by_cases vector : x.type = .vector3f
  · rw [if_pos vector]
    exact ⟨[x.whole a, x.element a 0, x.element a 1], 3, x.element a 2, rfl, rfl⟩
  · rw [if_neg vector]
    exact ⟨[], 0, x.whole a, rfl, rfl⟩

theorem exists_not_astray (follows : Enumeration.Follows Entry.token (next frame ptrs varInfo)
    (listing frame ptrs varInfo))
    (split : items frame ptrs 0 varInfo = before ++ x :: after) (placed : x.place = some a) :
    ∃ k, ¬Astray frame ptrs varInfo x before k := by
  obtain ⟨entries, k, e, hentries, token⟩ := exists_last_entry placed
  have hlisting : listing frame ptrs varInfo =
      (before ++ [x]).flatMap Item.entries ++ after.flatMap Item.entries := by
    rw [listing, split, ← flatMap_append, append_assoc, singleton_append]
  have leads : next frame ptrs varInfo (x.token k) = (after.flatMap Item.entries).head? := by
    rw [← token]
    apply follows (before.flatMap Item.entries ++ entries) e
    rw [hlisting, flatMap_append, flatMap_singleton, hentries]
    simp only [append_assoc, singleton_append]
  refine ⟨k, fun ⟨f, hf, astray⟩ => ?_⟩
  rw [leads] at hf
  rcases astray with element | again
  · exact element (idx_of_head_entries hf)
  · have nodup := follows.nodup
    rw [hlisting, map_append, nodup_append'] at nodup
    exact nodup.2.2 (mem_map_of_mem again) (mem_map_of_mem (mem_of_head? hf))

theorem entries_subset {between : List Item} (earlier : ∀ y ∈ between, y ∈ before) {f : Entry}
    (hf : f ∈ (between ++ [x]).flatMap Item.entries) :
    f ∈ (before ++ [x]).flatMap Item.entries := by
  obtain ⟨y, hy, mem⟩ := mem_flatMap.1 hf
  refine mem_flatMap.2 ⟨y, ?_, mem⟩
  rcases mem_append.1 hy with hy | hy
  · exact mem_append_left _ (earlier y hy)
  · exact mem_append_right _ hy

theorem astray_of_var (null : NoneAtNull ptrs varInfo)
    (split : items frame ptrs 0 varInfo = before ++ x :: after) (placed : x.place = some a)
    {k : ℕ} (earlier_row : (x.token k).key < x.row) (row : varInfo[(x.token k).key]? = some info)
    (content : info.content = .var type d) :
    Astray frame ptrs varInfo x before k := by
  unfold Astray
  rw [next_of_var row content]
  by_cases vector : type = .vector3f ∧ (x.token k).idx < 3
  · have placed_row : (Item.var (x.token k).key type info.ptr).place = _ := rfl
    have notNull := null.notNull_row row content _
      (element_mem_entries placed_row vector.1 vector.2)
    rw [if_pos vector]
    exact ⟨_, if_neg notNull, .inl (succ_ne_zero _)⟩
  · obtain ⟨between, tail, earlier⟩ := items_split split earlier_row
    obtain ⟨f, mem, head⟩ := exists_head_entries placed between after
    rw [if_neg vector, nextFrom_drop null (List.getElem?_eq_some_iff.1 row).1, tail, each_found]
    exact ⟨f, head, .inr (entries_subset (fun y hy => (earlier y hy).1) mem)⟩

theorem refound_of_not_astray (accepted : checkVarInfo varInfo = true)
    (null : NoneAtNull ptrs varInfo) (ordered : (items frame ptrs 0 varInfo).Pairwise Item.Before)
    (split : items frame ptrs 0 varInfo = before ++ x :: after) (large : 2 ^ 9 ≤ x.row)
    (placed : x.place = some a) {k : ℕ} (h : ¬Astray frame ptrs varInfo x before k) :
    Refound frame ptrs varInfo x := by
  have hx : x ∈ items frame ptrs 0 varInfo := by simp [split]
  have earlier_row : (x.token k).key < x.row := (mod_lt _ (by norm_num)).trans_le large
  have group : ∀ info ∈ varInfo[(x.token k).key]?, info.content.IsGroup := by
    intro info row
    cases content : info.content with
    | var type d => exact absurd (astray_of_var null split placed earlier_row row content) h
    | group g => trivial
    | nullGroup => trivial
  have hlt := token_key_lt hx k
  have row := getElem?_eq_getElem hlt
  obtain ⟨between, tail, earlier⟩ := items_split split earlier_row.le
  have scan : (∀ y ∈ between, y.IsLeaf ∧ y.groupElement ≠ (x.token k).groupElement) ∧
      x.IsLeaf := by
    by_contra lost
    obtain ⟨f, hf, astray⟩ := each_lost placed lost
    refine h ⟨f, ?_, astray.imp_right (entries_subset fun y hy => (earlier y hy).1)⟩
    rw [next_of_group row (group _ row), nextFrom_drop null hlt.le, tail]
    exact hf
  refine ⟨scan.2, group, fun z hz from_row lt => ?_⟩
  rw [← token_groupElement accepted hx k]
  exact scan.1 z (mem_between split ordered tail hz from_row lt)

theorem key_of_mem_entries {e : Entry} (h : e ∈ x.entries) :
    x.place ≠ none ∧ e.token.key = x.row % 2 ^ 9 := by
  cases place : x.place with
  | none =>
    rw [entries_of_unplaced place] at h
    cases h
  | some a =>
    rw [entries_of_place place] at h
    refine ⟨by simp, ?_⟩
    rcases mem_cons.1 h with rfl | h
    · rfl
    · split_ifs at h
      · simp only [mem_cons, not_mem_nil, or_false] at h
        rcases h with rfl | rfl | rfl <;> rfl
      · cases h

theorem shown_of_first_eq (accepted : checkVarInfo varInfo = true) (null : NoneAtNull ptrs varInfo)
    (head : first ptrs varInfo = (listing frame ptrs varInfo).head?)
    (refound : ∀ x ∈ items frame ptrs 0 varInfo, 2 ^ 9 ≤ x.row → x.place ≠ none →
    Refound frame ptrs varInfo x) :
    ∀ info ∈ varInfo.head?, checkFrameType frame info.flags = true := by
  cases varInfo with
  | nil => simp
  | cons info rest =>
    intro info' hinfo
    obtain rfl := some.inj hinfo
    obtain ⟨type, d, content, pointer⟩ := first_row accepted
    rw [first_eq null content pointer] at head
    obtain ⟨x, hx, mem⟩ := mem_flatMap.1 (mem_of_head? head.symm)
    obtain ⟨placed, key⟩ := key_of_mem_entries mem
    have key_zero : x.row % 2 ^ 9 = 0 := key.symm
    by_contra hidden
    have row_ne_zero : x.row ≠ 0 := by
      intro zero
      obtain ⟨info', row, mem⟩ := exists_row hx
      rw [zero] at row mem
      obtain rfl : info = info' := some.inj row
      rw [rowItems, if_neg hidden] at mem
      cases mem
    have group := (refound x hx (by omega) placed).2.1 info (by rw [key_zero]; rfl)
    rw [content] at group
    cases group

/-- The enumeration lists the variables exactly when row 0 is shown and all are found again. -/
theorem enumerates_iff_tellable (accepted : checkVarInfo varInfo = true)
    (distinct : ((vars varInfo).map fun v => (v.key, v.groupElement)).Nodup)
    (null : NoneAtNull ptrs varInfo) :
    Enumerates frame ptrs varInfo ↔ Tellable frame ptrs varInfo := by
  have ordered : (items frame ptrs 0 varInfo).Pairwise Item.Before := items_ordered distinct 0
  rw [enumerates_iff]
  constructor
  · rintro ⟨head, follows⟩
    have refound : ∀ x ∈ items frame ptrs 0 varInfo, 2 ^ 9 ≤ x.row → x.place ≠ none →
        Refound frame ptrs varInfo x := by
      intro x hx large hplace
      obtain ⟨a, placed⟩ := ne_none_iff_exists'.1 hplace
      obtain ⟨before, after, split⟩ := append_of_mem hx
      obtain ⟨k, hk⟩ := exists_not_astray follows split placed
      exact refound_of_not_astray accepted null ordered split large placed hk
    exact ⟨shown_of_first_eq accepted null head refound, refound⟩
  · intro h
    exact ⟨h.first_eq_head accepted null, h.follows accepted null ordered⟩

end Listing

theorem exampleTable_enumerates : Enumerates 0 (fun _ => 0) exampleTable :=
  (enumerates_iff_tellable (show checkVarInfo exampleTable = true by decide) (by decide)
    (fun _ => show ∀ e ∈ listing 0 (fun _ => 0) exampleTable, e.ptr ≠ 0 by decide)).2
    { shown := by decide
      refound := fun x hx large _ => absurd (large.trans_lt (row_lt hx)) (by decide) }

/-- Row 0 is not for this frame. -/
def hiddenFirst : List Info :=
  [⟨['F'], 0, 1000, .var .int16 0, 32⟩, ⟨['G'], 1, 1004, .var .float 0, 0⟩]

/-- The variable in row 0 comes first although it is not shown. -/
theorem hiddenFirst_not_enumerated :
    checkVarInfo hiddenFirst = true ∧
      ((vars hiddenFirst).map fun v => (v.key, v.groupElement)).Nodup ∧
      NoneAtNull (fun _ => 0) hiddenFirst ∧ ¬Enumerates 0 (fun _ => 0) hiddenFirst := by
  refine ⟨by decide, by decide, fun frame => ?_, fun h => ?_⟩
  · have second : checkFrameType frame 0 = true := rfl
    cases zeroth : checkFrameType frame 32 <;>
      simp only [listing, items, hiddenFirst, rowItems, zeroth, second] <;> decide
  · exact absurd (enumerates_iff.1 h).1 (by decide)

end Tm4cPilot.Param
