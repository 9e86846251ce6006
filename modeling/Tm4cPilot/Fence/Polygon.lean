import Mathlib.Tactic
import Tm4cPilot.Lib.ClosedPath

/-!
# Point in polygon

`Polygon_outside` counts the edges that a ray along x crosses.  It compares signs first and products
only if these leave the question open.
-/

namespace Tm4cPilot.Fence

open ClosedPath List Option

/-- `Vector2<T>`. -/
structure Vector2 (T : Type) where
  x : T
  y : T
  deriving DecidableEq, Repr

/-- The sign of a difference. -/
def sign (x : ℤ) : ℤ := if x < 0 then -1 else 1

/-! ## The template

The two instances of `Polygon_outside` differ in how a difference becomes an `int32_t`, so the
template takes the subtraction and the product as arguments. -/

section Template

variable {T : Type} [LT T] [DecidableLT T] {m : Type → Type} [Monad m]
  (sub : T → T → m ℤ) (mul : ℤ → ℤ → m ℤ)

/-- Does the edge from `Vj` to `Vi` turn `outside` round? -/
def edgeToggles (P Vi Vj : Vector2 T) : m Bool :=
  if P.y < Vi.y ↔ P.y < Vj.y then pure false
  else do
    let dx1 ← sub P.x Vi.x
    let dx2 ← sub Vj.x Vi.x
    let dy1 ← sub P.y Vi.y
    let dy2 ← sub Vj.y Vi.y
    let m1 := sign dx1 * sign dy2
    let m2 := sign dx2 * sign dy1
    if dy2 < 0 then
      if m2 < m1 then pure true
      else if m1 < m2 then pure false
      else do
        let left ← mul dx1 dy2
        let right ← mul dx2 dy1
        pure (decide (right < left))
    else
      if m1 < m2 then pure true
      else if m2 < m1 then pure false
      else do
        let left ← mul dx1 dy2
        let right ← mul dx2 dy1
        pure (decide (left < right))

/-- The loop of `Polygon_outside`. -/
def polygonLoop (P : Vector2 T) : Vector2 T → Bool → List (Vector2 T) → m Bool
  | _, outside, [] => pure outside
  | Vj, outside, Vi :: V => do
    let toggles ← edgeToggles sub mul P Vi Vj
    polygonLoop P Vi (xor outside toggles) V

/-- `Polygon_outside`. -/
def polygonOutsideWith (P : Vector2 T) (V : List (Vector2 T)) : m Bool :=
  match V.getLast? with
  | none => pure true
  | some last => polygonLoop sub mul P last true V

end Template

/-- A signed result of `w` bits; `none` is an overflow. -/
def checked (w : ℕ) (z : ℤ) : Option ℤ := if -2 ^ (w - 1) ≤ z ∧ z < 2 ^ (w - 1) then some z else none

/-- `Polygon_outside<int32_t>`; `none` is an overflow. -/
def polygonOutside (P : Vector2 ℤ) (V : List (Vector2 ℤ)) : Option Bool :=
  polygonOutsideWith (fun a b => checked 32 (a - b)) (fun a b => checked 64 (a * b)) P V

/-- A `float` as an `int32_t`: towards zero, saturating. -/
def toInt32 (q : ℚ) : ℤ := max (-2 ^ 31) (min (2 ^ 31 - 1) (q.num.tdiv q.den))

def polygonOutsideFloat (P : Vector2 ℚ) (V : List (Vector2 ℚ)) : Bool :=
  Id.run (polygonOutsideWith (fun a b => toInt32 (a - b)) (fun a b => a * b) P V)

def fltEpsilon : ℚ := 1 / 2 ^ 23

/-- `Polygon_complete`, with the `==` of the vectors. -/
def polygonComplete {T : Type} (equal : T → T → Bool) (V : List T) : Bool :=
  match V.head?, V.getLast? with
  | some first, some last => decide (4 ≤ V.length) && equal last first
  | _, _ => false

/-- The `==` of `Vector2<float>`. -/
def Vector2.equalFloat (a b : Vector2 ℚ) : Bool :=
  decide (|a.x - b.x| < fltEpsilon) && decide (|a.y - b.y| < fltEpsilon)

/-- `boundary_valid`; the first point is the return point, and `none` a null pointer. -/
def boundaryValid : Option (List (Vector2 ℚ)) → Bool
  | none => false
  | some [] => false
  | some (returnPoint :: boundary) =>
    decide (4 ≤ boundary.length) && polygonComplete Vector2.equalFloat boundary &&
      !polygonOutsideFloat returnPoint boundary

/-- `boundary_breached`; the first point is the return point. -/
def boundaryBreached (location : Vector2 ℚ) : Option (List (Vector2 ℚ)) → Bool
  | none => false
  | some points => polygonOutsideFloat location points.tail

/-- The edge meets the ray from `P` along x. -/
def Crosses (P : Vector2 ℤ) (e : Vector2 ℤ × Vector2 ℤ) : Prop :=
  ¬ (P.y < e.1.y ↔ P.y < e.2.y) ∧
    (P.x : ℚ) < e.1.x + (P.y - e.1.y : ℚ) * (e.2.x - e.1.x) / (e.2.y - e.1.y)
deriving Decidable

/-- The number of edges the ray crosses. -/
def crossings (P : Vector2 ℤ) (V : List (Vector2 ℤ)) : ℕ := (edges V).countP (Crosses P)

theorem crosses_swap (P : Vector2 ℤ) (e : Vector2 ℤ × Vector2 ℤ) :
    Crosses P e.swap ↔ Crosses P e := by
  unfold Crosses
  simp only [Prod.fst_swap, Prod.snd_swap]
  rw [iff_comm (a := P.y < e.2.y)]
  refine and_congr_right fun sides => ?_
  have apart : (e.1.y : ℚ) ≠ e.2.y := by
    intro same
    have same : e.1.y = e.2.y := by exact_mod_cast same
    exact sides (by rw [same])
  have same : (e.2.x : ℚ) + (P.y - e.2.y) * (e.1.x - e.2.x) / (e.1.y - e.2.y) =
      e.1.x + (P.y - e.1.y) * (e.2.x - e.1.x) / (e.2.y - e.1.y) := by
    field_simp
    ring
  rw [same]

theorem not_crosses_self (P a : Vector2 ℤ) : ¬ Crosses P (a, a) := fun h => h.1 Iff.rfl

/-- The comparison with the intersection, multiplied out. -/
theorem crosses_iff_products (P a b : Vector2 ℤ) (sides : ¬ (P.y < a.y ↔ P.y < b.y)) :
    Crosses P (a, b) ↔
      if b.y - a.y < 0 then (b.x - a.x) * (P.y - a.y) < (P.x - a.x) * (b.y - a.y)
      else (P.x - a.x) * (b.y - a.y) < (b.x - a.x) * (P.y - a.y) := by
  have shift : (P.x : ℚ) < a.x + (P.y - a.y : ℚ) * (b.x - a.x) / (b.y - a.y) ↔
      (P.x - a.x : ℚ) < (P.y - a.y : ℚ) * (b.x - a.x) / (b.y - a.y) := by
    rw [sub_lt_iff_lt_add']
  have cross : Crosses P (a, b) ↔
      (P.x - a.x : ℚ) < (P.y - a.y : ℚ) * (b.x - a.x) / (b.y - a.y) := by
    unfold Crosses
    simp only [sides, not_false_eq_true, true_and, shift]
  rw [cross]
  split_ifs with falls
  · have falls : ((b.y : ℚ) - a.y) < 0 := by exact_mod_cast falls
    rw [lt_div_iff_of_neg falls, mul_comm (P.y - a.y : ℚ)]
    exact_mod_cast Iff.rfl
  · have rises : 0 < b.y - a.y := by
      by_contra flat
      have same : b.y = a.y := by omega
      exact sides (by rw [same])
    have rises : 0 < ((b.y : ℚ) - a.y) := by exact_mod_cast rises
    rw [lt_div_iff₀ rises, mul_comm (P.y - a.y : ℚ)]
    exact_mod_cast Iff.rfl

/-! ## The loop counts crossings -/

theorem checked_eq_some {w : ℕ} {z : ℤ} (low : -2 ^ (w - 1) ≤ z) (high : z < 2 ^ (w - 1)) :
    checked w z = some z := if_pos ⟨low, high⟩

theorem checked_mul {a b : ℤ} (ha : |a| < 2 ^ 31) (hb : |b| < 2 ^ 31) :
    checked 64 (a * b) = some (a * b) := by
  have bound : |a * b| < 2 ^ 31 * 2 ^ 31 := by
    rw [abs_mul]
    exact mul_lt_mul'' ha hb (abs_nonneg a) (abs_nonneg b)
  obtain ⟨low, high⟩ := abs_lt.mp bound
  exact checked_eq_some (by norm_num at low ⊢; omega) (by norm_num at high ⊢; omega)

theorem checked_sub {a b : ℤ} (h : |a - b| < 2 ^ 31) : checked 32 (a - b) = some (a - b) := by
  obtain ⟨low, high⟩ := abs_lt.mp h
  exact checked_eq_some low.le high

/-- The sign tests agree with the comparison of the products. -/
theorem signs_decide {dx1 dx2 dy1 dy2 : ℤ} (range : dy2 < 0 ∧ dy1 < 0 ∨ 0 < dy2 ∧ 0 ≤ dy1) :
    (if dy2 < 0 then
      if sign dx2 * sign dy1 < sign dx1 * sign dy2 then true
      else if sign dx1 * sign dy2 < sign dx2 * sign dy1 then false
      else decide (dx2 * dy1 < dx1 * dy2)
    else
      if sign dx1 * sign dy2 < sign dx2 * sign dy1 then true
      else if sign dx2 * sign dy1 < sign dx1 * sign dy2 then false
      else decide (dx1 * dy2 < dx2 * dy1)) =
    decide (if dy2 < 0 then dx2 * dy1 < dx1 * dy2 else dx1 * dy2 < dx2 * dy1) := by
  rcases range with ⟨falls, above⟩ | ⟨rises, above⟩
  · simp only [sign, falls, above, if_true]
    rcases lt_or_ge dx1 0 with h1 | h1 <;> rcases lt_or_ge dx2 0 with h2 | h2
    · simp [h1, h2]
    · have : dx2 * dy1 < dx1 * dy2 := by nlinarith
      simp [h1, Int.not_lt.mpr h2, this]
    · have : ¬ dx2 * dy1 < dx1 * dy2 := by nlinarith
      simp [Int.not_lt.mpr h1, h2, this]
    · simp [Int.not_lt.mpr h1, Int.not_lt.mpr h2]
  · simp only [sign, Int.not_lt.mpr rises.le, Int.not_lt.mpr above, if_false]
    rcases lt_or_ge dx1 0 with h1 | h1 <;> rcases lt_or_ge dx2 0 with h2 | h2
    · simp [h1, h2]
    · have : dx1 * dy2 < dx2 * dy1 := by nlinarith
      simp [h1, Int.not_lt.mpr h2, this]
    · have : ¬ dx1 * dy2 < dx2 * dy1 := by nlinarith
      simp [Int.not_lt.mpr h1, h2, this]
    · simp [Int.not_lt.mpr h1, Int.not_lt.mpr h2]

/-- Nothing overflows, and the edge toggles exactly if the ray crosses it. -/
theorem edgeToggles_eq (P Vi Vj : Vector2 ℤ) (hx1 : |P.x - Vi.x| < 2 ^ 31)
    (hx2 : |Vj.x - Vi.x| < 2 ^ 31) (hy2 : |Vj.y - Vi.y| < 2 ^ 31) :
    edgeToggles (fun a b => checked 32 (a - b)) (fun a b => checked 64 (a * b)) P Vi Vj =
      some (decide (Crosses P (Vj, Vi))) := by
  unfold edgeToggles
  by_cases sides : P.y < Vi.y ↔ P.y < Vj.y
  · have missed : ¬ Crosses P (Vj, Vi) := fun h => h.1 sides.symm
    simp [sides, missed]
  have range : Vj.y - Vi.y < 0 ∧ P.y - Vi.y < 0 ∨ 0 < Vj.y - Vi.y ∧ 0 ≤ P.y - Vi.y := by omega
  have hy1 : |P.y - Vi.y| < 2 ^ 31 := by
    rw [abs_lt] at hy2 ⊢
    omega
  have crossed : decide (Crosses P (Vj, Vi)) =
      decide (if Vj.y - Vi.y < 0 then (Vj.x - Vi.x) * (P.y - Vi.y) < (P.x - Vi.x) * (Vj.y - Vi.y)
        else (P.x - Vi.x) * (Vj.y - Vi.y) < (Vj.x - Vi.x) * (P.y - Vi.y)) := by
    apply decide_eq_decide.mpr
    rw [← crosses_swap, Prod.swap_prod_mk]
    exact crosses_iff_products P Vi Vj sides
  simp only [sides, if_false, checked_sub hx1, checked_sub hx2, checked_sub hy1, checked_sub hy2,
    Option.bind_eq_bind, Option.bind_some, checked_mul hx1 hy2, checked_mul hx2 hy1, Option.pure_def]
  rw [crossed, ← signs_decide range]
  split_ifs <;> rfl

theorem polygonLoop_eq (P : Vector2 ℤ) (Vj : Vector2 ℤ) (outside : Bool) (V : List (Vector2 ℤ))
    (exact : ∀ e ∈ edgesFrom Vj V, edgeToggles (fun a b => checked 32 (a - b))
    (fun a b => checked 64 (a * b)) P e.2 e.1 = some (decide (Crosses P e))) :
    polygonLoop (fun a b => checked 32 (a - b)) (fun a b => checked 64 (a * b)) P Vj outside V =
      some (xor outside (decide (Odd ((edgesFrom Vj V).countP (Crosses P))))) := by
  induction V generalizing Vj outside with
  | nil => simp [polygonLoop, edgesFrom]
  | cons Vi V ih =>
    have head := exact (Vj, Vi) mem_cons_self
    have tail := ih Vi (xor outside (decide (Crosses P (Vj, Vi))))
      (fun e he => exact e (mem_cons_of_mem _ he))
    simp only [polygonLoop, head, bind_eq_bind, bind_some, tail, edgesFrom,
      countP_cons]
    by_cases crossed : Crosses P (Vj, Vi) <;> cases outside <;>
      simp [crossed, Nat.odd_add_one, -Nat.not_odd_iff_even]

/-- Latitudes of the globe, and longitudes less than `2 ^ 31` apart. -/
structure Narrow (V : List (Vector2 ℤ)) : Prop where
  latitude : ∀ v ∈ V, |v.x| ≤ 900000000
  longitude : ∀ v ∈ V, ∀ w ∈ V, |v.y - w.y| < 2 ^ 31

theorem Narrow.of_subset {V W : List (Vector2 ℤ)} (h : Narrow V) (sub : W ⊆ V) : Narrow W :=
  ⟨fun v hv => h.latitude v (sub hv), fun v hv w hw => h.longitude v (sub hv) w (sub hw)⟩

theorem polygonOutside_eq {P : Vector2 ℤ} (hP : |P.x| ≤ 900000000) {V : List (Vector2 ℤ)}
    (hV : Narrow V) : polygonOutside P V = some (decide (Even (crossings P V))) := by
  have exact : ∀ e ∈ edges V,
      edgeToggles (fun a b => checked 32 (a - b)) (fun a b => checked 64 (a * b)) P e.2 e.1 =
        some (decide (Crosses P e)) := by
    intro e he
    obtain ⟨start, finish⟩ := mem_of_mem_edges he
    have h1 := hV.latitude e.1 start
    have h2 := hV.latitude e.2 finish
    refine edgeToggles_eq P e.2 e.1 ?_ ?_ (hV.longitude e.1 start e.2 finish)
    all_goals
      rw [abs_le] at hP h1 h2
      rw [abs_lt]
      omega
  unfold polygonOutside polygonOutsideWith crossings
  rcases V.eq_nil_or_concat' with rfl | ⟨V, last, rfl⟩
  · simp [edges]
  · rw [edges_concat] at exact ⊢
    simp only [getLast?_append, getLast?_singleton, some_or]
    rw [polygonLoop_eq P last true _ exact]
    simp [← Nat.not_even_iff_odd]

theorem crossings_congr {P : Vector2 ℤ} {V W : List (Vector2 ℤ)} (h : (edges V).Perm (edges W)) :
    crossings P V = crossings P W := h.countP_eq _

theorem crossings_reverse (P : Vector2 ℤ) (V : List (Vector2 ℤ)) :
    crossings P V.reverse = crossings P V := by
  have turned : (Crosses P · : Vector2 ℤ × Vector2 ℤ → Bool) ∘ Prod.swap = (Crosses P ·) := by
    funext e
    exact decide_eq_decide.mpr (crosses_swap P e)
  unfold crossings
  rw [(edges_reverse V).countP_eq, countP_map, turned]

theorem crossings_closing (P a : Vector2 ℤ) (V : List (Vector2 ℤ)) :
    crossings P (a :: V ++ [a]) = crossings P (a :: V) := by
  unfold crossings
  rw [(edges_closing a V).countP_eq, countP_cons]
  simp [not_crosses_self]

/-- `Polygon_outside` returns whether the number of crossings is even, wherever and whichever way
round the list starts. -/
theorem polygonOutside_exact {P : Vector2 ℤ} (hP : |P.x| ≤ 900000000) {V : List (Vector2 ℤ)}
    (hV : Narrow V) :
    polygonOutside P V = some (decide (Even (crossings P V))) ∧
      (∀ k, polygonOutside P (V.rotate k) = polygonOutside P V) ∧
      polygonOutside P V.reverse = polygonOutside P V ∧
      ∀ first ∈ V.head?, polygonOutside P (V ++ [first]) = polygonOutside P V := by
  refine ⟨polygonOutside_eq hP hV, fun k => ?_, ?_, fun first hfirst => ?_⟩
  · have rotated : Narrow (V.rotate k) := hV.of_subset fun v hv => mem_rotate.mp hv
    rw [polygonOutside_eq hP rotated, polygonOutside_eq hP hV, crossings_congr (edges_rotate V k)]
  · have reversed : Narrow V.reverse := hV.of_subset fun v hv => mem_reverse.mp hv
    rw [polygonOutside_eq hP reversed, polygonOutside_eq hP hV, crossings_reverse]
  · cases V with
    | nil => cases hfirst
    | cons a V =>
      obtain rfl : a = first := some.inj hfirst
      have closed : Narrow (a :: V ++ [a]) := by
        refine hV.of_subset fun v hv => ?_
        rcases mem_append.mp hv with hv | hv
        · exact hv
        · exact mem_singleton.mp hv ▸ mem_cons_self
      rw [polygonOutside_eq hP closed, polygonOutside_eq hP hV, crossings_closing]

/-- A triangle over nearly half the globe, and a point in it, from which one edge is crossed. -/
theorem polygonOutside_exact_wide :
    let triangle : List (Vector2 ℤ) :=
      [⟨-900000000, -347483647⟩, ⟨900000000, -347483647⟩, ⟨0, 1800000000⟩]
    crossings ⟨100, 0⟩ triangle = 1 ∧ polygonOutside ⟨100, 0⟩ triangle = some false ∧
      polygonOutside ⟨100, 0⟩ (triangle.rotate 1) = some false := by
  intro triangle
  have narrow : Narrow triangle := ⟨by decide, by decide⟩
  obtain ⟨same, rotated, -⟩ := @polygonOutside_exact ⟨100, 0⟩ (by decide) _ narrow
  have inside : polygonOutside ⟨100, 0⟩ triangle = some false := same.trans (by decide +kernel)
  exact ⟨by decide +kernel, inside, (rotated 1).trans inside⟩

end Tm4cPilot.Fence
