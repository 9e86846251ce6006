import Tm4cPilot.Param.Table

/-!
# Do accepted tables identify their variables?

`check_group_info` keeps a mask of the indexes of one table, without its nested groups. Identifiers
are read level by level: six bits for a row, those above for the table below it.
-/

namespace Tm4cPilot.Param

open List

/-- The six bits of a row. -/
def field (row : Row) (shift : ℕ) : ℕ :=
  if row.idx = 0 ∧ shift ≠ 0 ∧ hasFlag row.flags noShift = false then 63 else row.idx.toNat

theorem groupId_eq (row : Row) (base shift : ℕ) :
    groupId row base shift = base + field row shift * 2 ^ shift := by
  unfold groupId field
  split_ifs <;> rw [Nat.shiftLeft_eq]

/-- The identifiers of a table. -/
def identifiers : GroupInfo → ℕ → List ℕ
  | .groupEnd, _ => []
  | .var row _ _ rest, shift => field row shift :: identifiers rest shift
  | .group row groupInfo rest, shift =>
    (identifiers groupInfo (shift + groupLevelShift)).map (fun id => field row shift + 64 * id) ++
      identifiers rest shift
  | .nullGroup _ rest, shift => identifiers rest shift

theorem leaves_eq_identifiers (g : GroupInfo) (base shift : ℕ) :
    (leaves g base shift).map Prod.fst =
      (identifiers g shift).map fun id => base + id * 2 ^ shift := by
  induction g generalizing base shift with
  | groupEnd => rfl
  | var row _ _ rest ih =>
    simp only [leaves, identifiers, map_cons, ih, groupId_eq]
  | group row groupInfo rest ihg ih =>
    simp only [leaves, identifiers, map_append, map_map, ih, ihg, groupId_eq]
    congr 1
    refine map_congr_left fun id _ => ?_
    simp only [Function.comp_apply, groupLevelShift, pow_add]
    ring
  | nullGroup _ rest ih => exact ih base shift

def varRows : GroupInfo → List Row
  | .groupEnd => []
  | .var row _ _ rest => row :: varRows rest
  | .group _ _ rest => varRows rest
  | .nullGroup _ rest => varRows rest

/-- Its groups with their identifiers. -/
def groupRows : GroupInfo → ℕ → List (ℕ × List ℕ)
  | .groupEnd, _ => []
  | .var _ _ _ rest, shift => groupRows rest shift
  | .group row groupInfo rest, shift =>
    (field row shift, identifiers groupInfo (shift + groupLevelShift)) :: groupRows rest shift
  | .nullGroup _ rest, shift => groupRows rest shift

/-- Groups with one field share no identifier, nor one with a variable of that field. -/
def Separate : GroupInfo → ℕ → Prop
  | .groupEnd, _ => True
  | .var row _ _ rest, shift =>
    (∀ g ∈ groupRows rest shift, g.1 = field row shift → 0 ∉ g.2) ∧ Separate rest shift
  | .group row groupInfo rest, shift =>
    (Separate groupInfo (shift + groupLevelShift) ∧
      ((∃ row' ∈ varRows rest, field row' shift = field row shift) →
        0 ∉ identifiers groupInfo (shift + groupLevelShift)) ∧
      ∀ g ∈ groupRows rest shift, g.1 = field row shift →
        ∀ id ∈ identifiers groupInfo (shift + groupLevelShift), id ∉ g.2) ∧ Separate rest shift
  | .nullGroup _ rest, shift => Separate rest shift

instance instDecidableSeparate : (g : GroupInfo) → (shift : ℕ) → Decidable (Separate g shift)
  | .groupEnd, _ => inferInstanceAs (Decidable True)
  | .var _ _ _ rest, shift =>
    have := instDecidableSeparate rest shift
    inferInstanceAs (Decidable (_ ∧ Separate rest shift))
  | .group _ groupInfo rest, shift =>
    have := instDecidableSeparate groupInfo (shift + groupLevelShift)
    have := instDecidableSeparate rest shift
    inferInstanceAs (Decidable ((Separate groupInfo (shift + groupLevelShift) ∧ _ ∧ _) ∧
      Separate rest shift))
  | .nullGroup _ rest, shift => instDecidableSeparate rest shift

/-! ## What the check of one table establishes -/

/-- The bit of `used_mask` that a row takes. -/
def usedIdx (row : Row) (shift : ℕ) : ℕ :=
  if shift ≠ 0 ∧ row.idx.toNat = 0 then 63 else row.idx.toNat

variable {row : Row} {shift : ℕ}

theorem usedIdx_eq_of_field_eq {row' : Row} (h : field row shift = field row' shift) :
    usedIdx row shift = usedIdx row' shift := by
  have hzero : ∀ row : Row, row.idx = 0 ↔ row.idx.toNat = 0 := fun row =>
    ⟨fun h => by rw [h]; rfl, fun h => UInt8.toNat_inj.1 h⟩
  simp only [field, usedIdx, hzero] at h ⊢
  split_ifs at h ⊢ <;> omega

variable {rest : GroupInfo} {n used : ℕ}

theorem checkGroupInfo_var {type : VarType} {d : Single}
    (h : checkGroupInfo (.var row type d rest) shift n used = true) :
    row.idx.toNat < 64 ∧ used.testBit (usedIdx row shift) = false ∧
      checkGroupInfo rest shift n (used ||| 1 <<< usedIdx row shift) = true := by
  have hdef : checkGroupInfo (.var row type d rest) shift n used =
      if row.idx.toNat ≥ 1 <<< groupLevelShift then false
      else if used.testBit (usedIdx row shift) then false else if typeSize type.code = 0 then false
      else if n + row.name.length > 16 then false
      else checkGroupInfo rest shift n (used ||| 1 <<< usedIdx row shift) := rfl
  rw [hdef] at h
  split_ifs at h with hidx hused
  exact ⟨by simpa [groupLevelShift] using hidx, by simpa using hused, h⟩

theorem checkGroupInfo_group {groupInfo : GroupInfo}
    (h : checkGroupInfo (.group row groupInfo rest) shift n used = true) :
    row.idx.toNat < 64 ∧ shift + groupLevelShift < groupBits ∧
      (∃ m, checkGroupInfo groupInfo (shift + groupLevelShift) m 0 = true) ∧
      checkGroupInfo rest shift n used = true := by
  simp only [checkGroupInfo] at h
  split_ifs at h with hidx hbits hsub
  exact ⟨by simpa [groupLevelShift] using hidx, not_le.1 hbits, ⟨_, by simpa using hsub⟩, h⟩

theorem checkGroupInfo_nullGroup (h : checkGroupInfo (.nullGroup row rest) shift n used = true) :
    checkGroupInfo rest shift n used = true := by
  simp only [checkGroupInfo] at h
  split_ifs at h
  exact h

variable {g : GroupInfo}

theorem checkGroupInfo_unused (h : checkGroupInfo g shift n used = true) (hrow : row ∈ varRows g) :
    used.testBit (usedIdx row shift) = false := by
  induction g generalizing used with
  | groupEnd => cases hrow
  | var row' _ _ rest ih =>
    obtain ⟨-, hused, hrest⟩ := checkGroupInfo_var h
    rcases mem_cons.1 hrow with rfl | hrow
    · exact hused
    · have hor := ih hrest hrow
      rw [Nat.testBit_or, Bool.or_eq_false_iff] at hor
      exact hor.1
  | group _ _ rest _ ih => exact ih (checkGroupInfo_group h).2.2.2 hrow
  | nullGroup _ rest ih => exact ih (checkGroupInfo_nullGroup h) hrow

theorem field_ne_of_checkGroupInfo {type : VarType} {d : Single}
    (h : checkGroupInfo (.var row type d rest) shift n used = true) {row' : Row}
    (hrow : row' ∈ varRows rest) : field row' shift ≠ field row shift := by
  intro heq
  have hor := checkGroupInfo_unused (checkGroupInfo_var h).2.2 hrow
  rw [usedIdx_eq_of_field_eq heq, Nat.testBit_or, Bool.or_eq_false_iff] at hor
  simp [Nat.one_shiftLeft, Nat.testBit_two_pow_self] at hor

theorem field_lt (shift : ℕ) (h : row.idx.toNat < 64) : field row shift < 64 := by
  unfold field
  split_ifs <;> omega

theorem mem_identifiers (h : checkGroupInfo g shift n used = true) {f : ℕ} (hf : f < 64) (id : ℕ) :
    f + 64 * id ∈ identifiers g shift ↔
      (id = 0 ∧ ∃ row ∈ varRows g, field row shift = f) ∨
        ∃ r ∈ groupRows g shift, r.1 = f ∧ id ∈ r.2 := by
  induction g generalizing used with
  | groupEnd => simp [identifiers, varRows, groupRows]
  | var row _ _ rest ih =>
    obtain ⟨hidx, -, hrest⟩ := checkGroupInfo_var h
    have hlt := field_lt shift hidx
    have hhead : f + 64 * id = field row shift ↔ id = 0 ∧ field row shift = f := by omega
    simp only [identifiers, varRows, groupRows, mem_cons, ih hrest, hhead, exists_eq_or_imp]
    rw [and_or_left, or_assoc]
  | group row groupInfo rest _ ih =>
    obtain ⟨hidx, -, -, hrest⟩ := checkGroupInfo_group h
    have hlt := field_lt shift hidx
    have hhead : f + 64 * id ∈ (identifiers groupInfo (shift + groupLevelShift)).map
        (fun id => field row shift + 64 * id) ↔
          field row shift = f ∧ id ∈ identifiers groupInfo (shift + groupLevelShift) := by
      rw [mem_map]
      constructor
      · intro ⟨id', hmem, heq⟩
        obtain rfl : id' = id := by omega
        exact ⟨by omega, hmem⟩
      · intro ⟨heq, hmem⟩
        exact ⟨id, hmem, by rw [heq]⟩
    simp only [identifiers, varRows, groupRows, mem_append, ih hrest, hhead, mem_cons,
      exists_eq_or_imp]
    rw [or_left_comm]
  | nullGroup _ rest ih => exact ih (checkGroupInfo_nullGroup h)

theorem identifiers_nodup_iff (h : checkGroupInfo g shift n used = true) :
    (identifiers g shift).Nodup ↔ Separate g shift := by
  induction g generalizing shift n used with
  | groupEnd => simp [identifiers, Separate]
  | var row _ _ rest ih =>
    obtain ⟨hidx, -, hrest⟩ := checkGroupInfo_var h
    have hmem := mem_identifiers hrest (field_lt shift hidx) 0
    have hvar : ¬∃ row' ∈ varRows rest, field row' shift = field row shift :=
      fun ⟨row', hrow, heq⟩ => field_ne_of_checkGroupInfo h hrow heq
    simp only [mul_zero, add_zero, true_and, hvar, false_or] at hmem
    rw [identifiers, Separate, nodup_cons, ih hrest, hmem]
    push Not
    rfl
  | group row groupInfo rest ihg ih =>
    obtain ⟨hidx, -, ⟨m, hsub⟩, hrest⟩ := checkGroupInfo_group h
    have hinj : Function.Injective fun id => field row shift + 64 * id := by
      intro a b hab
      simpa using hab
    have hapart : List.Disjoint ((identifiers groupInfo (shift + groupLevelShift)).map
        fun id => field row shift + 64 * id) (identifiers rest shift) ↔
          ((∃ row' ∈ varRows rest, field row' shift = field row shift) →
            0 ∉ identifiers groupInfo (shift + groupLevelShift)) ∧
          ∀ g ∈ groupRows rest shift, g.1 = field row shift →
            ∀ id ∈ identifiers groupInfo (shift + groupLevelShift), id ∉ g.2 := by
      unfold List.Disjoint
      simp only [forall_mem_map, mem_identifiers hrest (field_lt shift hidx)]
      constructor
      · intro hall
        refine ⟨fun hex hzero => hall 0 hzero (.inl ⟨rfl, hex⟩), fun g hg heq id hid hid' => ?_⟩
        exact hall id hid (.inr ⟨g, hg, heq, hid'⟩)
      · intro ⟨hvar, hgroup⟩ id hid hmem
        rcases hmem with ⟨rfl, hex⟩ | ⟨g, hg, heq, hid'⟩
        · exact hvar hex hid
        · exact hgroup g hg heq id hid hid'
    rw [identifiers, Separate, nodup_append', nodup_map_iff hinj, ihg hsub, ih hrest, hapart]
    tauto
  | nullGroup _ rest ih => exact ih (checkGroupInfo_nullGroup h)

theorem leaves_nodup_iff (h : checkGroupInfo g 0 n used = true) :
    ((leaves g 0 0).map Prod.fst).Nodup ↔ Separate g 0 := by
  rw [leaves_eq_identifiers, nodup_map_iff (fun a b hab => by simpa using hab),
    identifiers_nodup_iff h]

/-! ## All tables -/

variable {info : Info}

theorem key_of_mem_vars {v : VarId} (h : v ∈ info.vars) : v.key = info.key := by
  unfold Info.vars at h
  split at h
  · rw [mem_singleton.1 h]
  · obtain ⟨_, -, rfl⟩ := mem_map.1 h
    rfl
  · cases h

theorem checkVarInfoFrom_cons {i : ℕ} {rest : List Info}
    (h : checkVarInfoFrom i (info :: rest) = true) :
    (info.content ≠ .nullGroup → duplicateKey rest info.key = false) ∧
      (∀ g, info.content = .group g → ∃ n, checkGroupInfo g 0 n 0 = true) ∧
      checkVarInfoFrom (i + 1) rest = true := by
  unfold checkVarInfoFrom at h
  split at h
  · rename_i g hg
    split_ifs at h with _ hcheck hdup
    have hcheck : checkGroupInfo g 0 (info.name.length % 2 ^ 8) 0 = true := by simpa using hcheck
    refine ⟨fun _ => by simpa using hdup, fun g' hg' => ?_, h⟩
    obtain rfl : g = g' := by simpa [hg] using hg'
    exact ⟨_, hcheck⟩
  · rename_i hnull
    split_ifs at h
    exact ⟨fun hne => absurd hnull hne, by simp [hnull], h⟩
  · rename_i hvar
    split_ifs at h with _ hdup
    exact ⟨fun _ => by simpa using hdup, by simp [hvar], h⟩

theorem info_nodup_iff (h : ∀ g, info.content = .group g → ∃ n, checkGroupInfo g 0 n 0 = true) :
    (info.vars.map fun v => (v.key, v.groupElement)).Nodup ↔
      ∀ g, info.content = .group g → Separate g 0 := by
  unfold Info.vars
  split
  · rename_i hvar
    simp [hvar]
  · rename_i g hg
    obtain ⟨n, hn⟩ := h g hg
    have hids : (((leaves g 0 0).map fun leaf => (⟨info.key, leaf.1, leaf.2⟩ : VarId)).map
        fun v => (v.key, v.groupElement)) =
          ((leaves g 0 0).map Prod.fst).map fun id => (info.key, id) := by
      rw [map_map, map_map]
      rfl
    rw [hids, nodup_map_iff (fun a b hab => (Prod.mk.inj hab).2), leaves_nodup_iff hn]
    simp only [hg, Content.group.injEq, forall_eq']
  · rename_i hnull
    simp [hnull]

theorem vars_nodup_iff {i : ℕ} {varInfo : List Info} (h : checkVarInfoFrom i varInfo = true) :
    ((vars varInfo).map fun v => (v.key, v.groupElement)).Nodup ↔
      ∀ info ∈ varInfo, ∀ g, info.content = .group g → Separate g 0 := by
  induction varInfo generalizing i with
  | nil => simp [vars]
  | cons info rest ih =>
    obtain ⟨hkey, hgroup, hrest⟩ := checkVarInfoFrom_cons h
    have happart : List.Disjoint (info.vars.map fun v => (v.key, v.groupElement))
        ((vars rest).map fun v => (v.key, v.groupElement)) := by
      intro pair hpair hpair'
      obtain ⟨v, hv, rfl⟩ := mem_map.1 hpair
      obtain ⟨v', hv', heq⟩ := mem_map.1 hpair'
      obtain ⟨info', hinfo', hv'⟩ := mem_flatMap.1 hv'
      have hdup := hkey fun hnull => by simp [Info.vars, hnull] at hv
      rw [duplicateKey, any_eq_false] at hdup
      refine hdup info' hinfo' ?_
      rw [← key_of_mem_vars hv, ← key_of_mem_vars hv', (Prod.mk.inj heq).1, beq_self_eq_true]
    have hvars : vars (info :: rest) = info.vars ++ vars rest := flatMap_cons
    rw [hvars, map_append, nodup_append', info_nodup_iff hgroup, forall_mem_cons, ih hrest]
    exact and_congr_right fun _ => and_iff_left happart

/-- In accepted tables the identifiers are unique exactly when the groups are separate. -/
theorem checkVarInfo_unique_iff {varInfo : List Info} (h : checkVarInfo varInfo = true) :
    ((vars varInfo).map fun v => (v.key, v.groupElement)).Nodup ↔
      ∀ info ∈ varInfo, ∀ g, info.content = .group g → Separate g 0 :=
  vars_nodup_iff h

/-- Nested groups, with a variable of index 0 in each table. -/
def exampleTable : List Info :=
  [⟨['F', 'O', 'R', 'M', 'A', 'T'], 0, 1000, .var .int16 0, 0⟩,
    ⟨['M', 'O', 'T', '_'], 1, 2000, .group
      (.var ⟨0, ['A'], 0, 0⟩ .int8 0 <|
        .group ⟨1, ['B', '_'], 4, flagNestedOffset⟩
          (.var ⟨0, ['P'], 0, 0⟩ .float 0 <| .var ⟨1, ['I'], 4, noShift⟩ .float 0 .groupEnd) <|
        .group ⟨1, ['C', '_'], 12, flagNestedOffset⟩
          (.var ⟨2, ['V'], 0, 0⟩ .vector3f 0 .groupEnd) .groupEnd), 0⟩]

theorem checkVarInfo_unique_exampleTable :
    ((vars exampleTable).map fun v => (v.key, v.groupElement)).Nodup :=
  (checkVarInfo_unique_iff (show checkVarInfo exampleTable = true by decide)).2 (by
    simp only [exampleTable, List.forall_mem_cons, List.not_mem_nil, false_imp_iff,
      implies_true, and_true, Content.group.injEq, forall_eq', reduceCtorEq, true_and]
    decide)

/-- Two groups with one index. -/
def tableClashingGroups : List Info :=
  [⟨['F'], 0, 1000, .var .int16 0, 0⟩, ⟨['M', '_'], 1, 2000, .group
    (.group ⟨1, ['B', '_'], 0, flagNestedOffset⟩ (.var ⟨2, ['P'], 0, 0⟩ .float 0 .groupEnd) <|
      .group ⟨1, ['C', '_'], 4, flagNestedOffset⟩ (.var ⟨2, ['P'], 0, 0⟩ .float 0 .groupEnd)
        .groupEnd), 0⟩]

/-- A group without a shift. -/
def tableUnshifted : List Info :=
  [⟨['F'], 0, 1000, .var .int16 0, 0⟩, ⟨['M', '_'], 1, 2000, .group
    (.var ⟨1, ['A'], 0, 0⟩ .float 0 <|
      .group ⟨1, ['B', '_'], 4, flagNestedOffset⟩ (.var ⟨0, ['P'], 0, noShift⟩ .float 0 .groupEnd)
        .groupEnd), 0⟩]

/-- Both tables are accepted, and in both two variables share an identifier. -/
theorem checkVarInfo_accepts_clash :
    (checkVarInfo tableClashingGroups = true ∧
      ¬((vars tableClashingGroups).map fun v => (v.key, v.groupElement)).Nodup) ∧
    checkVarInfo tableUnshifted = true ∧
      ¬((vars tableUnshifted).map fun v => (v.key, v.groupElement)).Nodup := by
  decide

end Tm4cPilot.Param
