import Mathlib.Tactic

/-!
# Decimal fields of NMEA sentences

`_parse_decimal_100` reads a decimal number in hundredths.  A computation that leaves the 32 bits of
a `long` is undefined and gives `none`.
-/

namespace Tm4cPilot.Gps.Nmea

open Option List

def int32Max : ℤ := 2 ^ 31 - 1
def int32Min : ℤ := -2 ^ 31

/-- A value of the type `long`. -/
def long (x : ℤ) : Option ℤ := if int32Min ≤ x ∧ x ≤ int32Max then some x else none

/-- The value that `strtol` gives out of range. -/
def clamp (x : ℤ) : ℤ := if x < int32Min then int32Min else if int32Max < x then int32Max else x

def digitToVal (c : Char) : ℕ := c.toNat - '0'.toNat

/-- `strtol` in base ten, and where it stops. -/
def strtol (p : List Char) : ℤ × List Char :=
  let q := p.dropWhile Char.isWhitespace
  let (negative, q) := match q with
    | '-' :: q => (true, q)
    | '+' :: q => (false, q)
    | q => (false, q)
  let digits := q.takeWhile Char.isDigit
  let n : ℤ := digits.foldl (fun n c => 10 * n + digitToVal c) 0
  if digits = [] then (0, p) else (clamp (if negative then -n else n), q.dropWhile Char.isDigit)

/-- The digits after the point. -/
def addFraction (ret sign : ℤ) : List Char → Option ℤ
  | c₁ :: rest =>
    if c₁.isDigit then do
      let ret ← long (ret + sign * 10 * digitToVal c₁)
      match rest with
      | c₂ :: rest =>
        if c₂.isDigit then do
          let ret ← long (ret + sign * digitToVal c₂)
          match rest with
          | c₃ :: _ =>
            if c₃.isDigit then long (ret + sign * if 5 ≤ digitToVal c₃ then 1 else 0) else some ret
          | [] => some ret
        else some ret
      | [] => some ret
    else some ret
  | [] => some ret

def parseDecimal100 (p : List Char) : Option ℤ := do
  let (value, endptr) := strtol p
  let ret ← long (100 * value)
  let sign := if ret < 0 then -1 else 1
  if int32Max ≤ ret then return int32Max
  if ret ≤ int32Min then return int32Min
  match endptr with
  | '.' :: rest => addFraction ret sign rest
  | _ => return ret

/-! ## Decimal numbers -/

/-- A number of the form `[-]digits[.digits]`. -/
structure Decimal where
  negative : Bool
  whole : List (Fin 10)
  nonempty : whole ≠ []
  fraction : Option (List (Fin 10))

/-- The character of a digit. -/
def digit (d : Fin 10) : Char := Char.ofNat (48 + d)

namespace Decimal

variable (t : Decimal)

/-- The point and the fraction. -/
def tail : List Char := t.fraction.elim [] fun ds => '.' :: ds.map digit

/-- The field as it is sent. -/
def text : List Char :=
  (if t.negative then ['-'] else []) ++ (t.whole.map digit ++ t.tail)

/-- The value before the point. -/
def wholeValue : ℕ := t.whole.foldl (fun n d => 10 * n + d) 0

/-- The value after the point. -/
def fractionValue : List (Fin 10) → ℚ
  | [] => 0
  | d :: ds => (d + fractionValue ds) / 10

/-- The number times 100, without its sign and rounded. -/
def hundredths : ℤ := ⌊100 * (t.wholeValue + fractionValue (t.fraction.getD [])) + 1 / 2⌋

/-- The number times 100, rounded half away from zero. -/
def rounded : ℤ := if t.negative then -t.hundredths else t.hundredths

end Decimal

theorem isDigit_digit (d : Fin 10) : (digit d).isDigit = true := by revert d; decide

@[simp] theorem digitToVal_digit (d : Fin 10) : digitToVal (digit d) = d := by revert d; decide

theorem digit_ne (d : Fin 10) : digit d ≠ '-' ∧ digit d ≠ '+' ∧ (digit d).isWhitespace = false := by
  revert d; decide

theorem strtol_text (t : Decimal) :
    strtol t.text = (clamp (if t.negative then -t.wholeValue else t.wholeValue), t.tail) := by
  obtain ⟨d, ds, hwhole⟩ := exists_cons_of_ne_nil t.nonempty
  obtain ⟨hminus, hplus, hspace⟩ := digit_ne d
  have hdigits : ∀ c ∈ t.whole.map digit, c.isDigit = true := by simp [isDigit_digit]
  have hstop : t.tail.takeWhile Char.isDigit = [] ∧ t.tail.dropWhile Char.isDigit = t.tail := by
    cases h : t.fraction <;> simp [Decimal.tail, h]
  have hvalue (n : ℕ) : (t.whole.map digit).foldl (fun (n : ℤ) c => 10 * n + digitToVal c) n =
      (t.whole.foldl (fun n d => 10 * n + d) n : ℕ) := by
    induction t.whole generalizing n with
    | nil => rfl
    | cons d ds ih => simpa using ih (10 * n + d)
  have htake : (t.whole.map digit ++ t.tail).takeWhile Char.isDigit = t.whole.map digit := by
    rw [takeWhile_append_of_pos hdigits, hstop.1, append_nil]
  have hdrop : (t.whole.map digit ++ t.tail).dropWhile Char.isDigit = t.tail := by
    rw [dropWhile_append_of_pos hdigits, hstop.2]
  have hsome : t.whole.map digit ≠ [] := by simp [hwhole]
  have hsplit : t.text.dropWhile Char.isWhitespace = t.text := by
    cases h : t.negative <;> simp [Decimal.text, h, hwhole, hspace]
  have hsign : (match t.text with
      | '-' :: q => (true, q)
      | '+' :: q => (false, q)
      | q => (false, q)) = (t.negative, t.whole.map digit ++ t.tail) := by
    cases h : t.negative
    · have htext : t.text = digit d :: (ds.map digit ++ t.tail) := by simp [Decimal.text, h, hwhole]
      rw [htext]
      split
      · next heq => exact absurd (cons.inj heq).1 hminus
      · next heq => exact absurd (cons.inj heq).1 hplus
      · simp [hwhole]
    · simp [Decimal.text, h]
  simp only [strtol, hsplit, hsign, htake, hdrop, if_neg hsome]
  rw [show (0 : ℤ) = ((0 : ℕ) : ℤ) from rfl, hvalue]
  rfl

/-- The hundredths of a fraction, rounded by the third digit. -/
def pennies : List (Fin 10) → ℤ
  | [] => 0
  | [a] => 10 * a
  | [a, b] => 10 * a + b
  | a :: b :: c :: _ => 10 * a + b + if 5 ≤ (c : ℕ) then 1 else 0

theorem fractionValue_bounds (ds : List (Fin 10)) :
    0 ≤ Decimal.fractionValue ds ∧ Decimal.fractionValue ds < 1 := by
  induction ds with
  | nil => norm_num [Decimal.fractionValue]
  | cons d ds ih =>
    have hd : ((d : ℕ) : ℚ) ≤ 9 := by exact_mod_cast Nat.le_of_lt_succ d.isLt
    rw [Decimal.fractionValue]
    constructor <;> linarith

theorem hundredths_eq (t : Decimal) :
    t.hundredths = 100 * t.wholeValue + pennies (t.fraction.getD []) := by
  rw [Decimal.hundredths, Int.floor_eq_iff]
  match t.fraction.getD [] with
  | [] => norm_num [pennies, Decimal.fractionValue]
  | [a] => constructor <;> simp only [pennies, Decimal.fractionValue] <;> push_cast <;> linarith
  | [a, b] => constructor <;> simp only [pennies, Decimal.fractionValue] <;> push_cast <;> linarith
  | a :: b :: c :: ds =>
    obtain ⟨hlow, hhigh⟩ := fractionValue_bounds ds
    simp only [pennies, Decimal.fractionValue]
    split
    · next hc =>
      have hc : (5 : ℚ) ≤ (c : ℕ) := by exact_mod_cast hc
      have hc' : ((c : ℕ) : ℚ) ≤ 9 := by exact_mod_cast Nat.le_of_lt_succ c.isLt
      push_cast
      constructor <;> linarith
    · next hc =>
      have hc : ((c : ℕ) : ℚ) ≤ 4 := by exact_mod_cast (by omega : (c : ℕ) ≤ 4)
      push_cast
      constructor <;> linarith

theorem long_eq_some {x y : ℤ} : long x = some y ↔ (-2147483648 ≤ x ∧ x ≤ 2147483647) ∧ x = y := by
  rw [long, ite_none_right_eq_some, some_inj]
  rfl

theorem addFraction_digits {ret sign : ℤ} (hret : long ret = some ret)
    (hsign : sign = 1 ∨ sign = -1) (ds : List (Fin 10)) :
    addFraction ret sign (ds.map digit) = long (ret + sign * pennies ds) := by
  have hrange := (long_eq_some.mp hret).1
  refine ext fun y => ?_
  match ds with
  | [] => simp [addFraction, pennies, hret]
  | [a] =>
    simp [addFraction, pennies, isDigit_digit, mul_assoc]
  | [a, b] =>
    simp [addFraction, pennies, isDigit_digit, long_eq_some, bind_eq_some_iff]
    rcases hsign with rfl | rfl <;> omega
  | a :: b :: c :: ds =>
    simp [addFraction, pennies, isDigit_digit, long_eq_some, bind_eq_some_iff]
    split <;> rcases hsign with rfl | rfl <;> omega

/-- The number before the point, as `strtol` reads it. -/
def Decimal.value (t : Decimal) : ℤ := if t.negative then -t.wholeValue else t.wholeValue

theorem parseDecimal100_text (t : Decimal) :
    parseDecimal100 t.text =
      if t.wholeValue ≤ 21474836 then
        long (100 * t.value + (if t.value < 0 then -1 else 1) * pennies (t.fraction.getD []))
      else none := by
  have hvalue : t.value = t.wholeValue ∨ t.value = -t.wholeValue := by
    rw [Decimal.value]
    split <;> simp
  have hstrtol : strtol t.text = (clamp t.value, t.tail) := strtol_text t
  simp only [parseDecimal100, hstrtol]
  by_cases hle : t.wholeValue ≤ 21474836
  · have hclamp : clamp t.value = t.value := by
      simp only [clamp, int32Min, int32Max]
      split_ifs <;> omega
    have hlong : long (100 * t.value) = some (100 * t.value) := long_eq_some.mpr ⟨by omega, rfl⟩
    have hmax : ¬ int32Max ≤ 100 * t.value := by
      rw [int32Max]
      omega
    have hmin : ¬ 100 * t.value ≤ int32Min := by
      rw [int32Min]
      omega
    have hsign : 100 * t.value < 0 ↔ t.value < 0 := by omega
    simp only [hclamp, hlong, bind_eq_bind, bind_some, if_neg hmax, if_neg hmin,
      hsign, if_pos hle]
    cases hfraction : t.fraction with
    | none => simp [Decimal.tail, hfraction, pennies, hlong]
    | some ds =>
      simp only [Decimal.tail, hfraction, elim_some, getD_some]
      exact addFraction_digits hlong (by split <;> simp) ds
  · have hout : long (100 * clamp t.value) = none := by
      rw [long, if_neg]
      simp only [clamp, int32Min, int32Max]
      split_ifs <;> omega
    rw [hout, if_neg hle]
    rfl

/-- **Decimal fields are read exactly** and rounded half away from zero, if and only if the value is
within 32 bits and no sign is lost with a zero before the point. -/
theorem parseDecimal100_exact_iff (t : Decimal) :
    parseDecimal100 t.text = some (clamp t.rounded) ↔
      (int32Min ≤ t.rounded ∧ t.rounded ≤ int32Max) ∧
        ¬ (t.negative ∧ t.wholeValue = 0 ∧ t.rounded ≠ 0) := by
  have hpennies : 0 ≤ pennies (t.fraction.getD []) ∧ pennies (t.fraction.getD []) ≤ 100 := by
    unfold pennies
    split <;> omega
  rw [parseDecimal100_text, Decimal.rounded, hundredths_eq, Decimal.value]
  generalize pennies (t.fraction.getD []) = hundredths at hpennies ⊢
  simp only [clamp, int32Min, int32Max, ite_none_right_eq_some, long_eq_some]
  cases t.negative with
  | false =>
    have hpositive : ¬ (t.wholeValue : ℤ) < 0 := by omega
    simp only [Bool.false_eq_true, if_false, hpositive, false_and, not_false_eq_true, and_true]
    split_ifs <;> omega
  | true =>
    rcases Nat.eq_zero_or_pos t.wholeValue with hzero | hpositive
    · simp only [hzero, if_true, Nat.cast_zero, neg_zero, lt_irrefl, if_false, true_and]
      split_ifs <;> omega
    · split_ifs <;> omega

def minusHalf : Decimal := ⟨true, [0], by simp, some [5]⟩

/-- `-0.5` is read as 0.5. -/
theorem parseDecimal100_minusHalf :
    parseDecimal100 minusHalf.text = some 50 ∧ clamp minusHalf.rounded = -50 := by
  have hrounded : minusHalf.rounded = -50 := by
    rw [Decimal.rounded, hundredths_eq]
    rfl
  exact ⟨by decide, by rw [hrounded]; decide⟩

end Tm4cPilot.Gps.Nmea
