import ItemSchema.Proofs.Numeral.Rounding
import Mathlib.Algebra.Order.Field.Basic
import Mathlib.Data.Sign.Basic
import Mathlib.Tactic.Linarith

/-! Rational numbers as decimals: which of them there are, and the one that is kept of a number with
more places. -/
namespace ItemSchema.Decimal

/-- Whether there is a decimal of this value. -/
def Fits (q : ℚ) : Prop :=
  ∃ d : Decimal, d.value = q

/-- The number rounded to a count of places behind the point, halves away from zero. -/
def roundAway (places : ℕ) (q : ℚ) : ℚ :=
  SignType.sign q * ⌊|q| * 10 ^ places + 1 / 2⌋₊ / 10 ^ places

/-- What is kept of a number that is written with a count of places: as many of them as fit, the
last one rounded. -/
structure Keeps (d : Decimal) (places : ℕ) (q : ℚ) : Prop where
  scale_le : d.scale ≤ places
  value : d.value = roundAway d.scale q
  most : d.scale = min places 28 ∨ 2 ^ 96 ≤ |roundAway (d.scale + 1) q| * 10 ^ (d.scale + 1)

/-- The number of so many units of the last of its places. -/
def ofUnits (negative : Bool) (n places : ℕ) : ℚ :=
  (if negative then -(n : ℚ) else n) / 10 ^ places

theorem value_eq_ofUnits (d : Decimal) : d.value = ofUnits d.negative d.magnitude d.scale :=
  rfl

theorem abs_ofUnits (negative : Bool) (n places : ℕ) :
    |ofUnits negative n places| * 10 ^ places = n := by
  have power : (0 : ℚ) < 10 ^ places := by positivity
  rw [ofUnits, abs_div, abs_of_pos power, div_mul_cancel₀ _ power.ne']
  cases negative <;> simp

theorem abs_value (d : Decimal) : |d.value| * 10 ^ d.scale = d.magnitude :=
  abs_ofUnits d.negative d.magnitude d.scale

/-- The numbers that fit: some count of places makes them small enough integers. -/
theorem fits_iff {q : ℚ} : Fits q ↔
    ∃ scale ≤ 28, ∃ n : ℕ, n < 2 ^ 96 ∧ |q| * 10 ^ scale = n := by
  constructor
  · rintro ⟨d, rfl⟩
    exact ⟨d.scale, d.scale_le, d.magnitude, d.magnitude_lt, d.abs_value⟩
  · rintro ⟨scale, places, n, fits, count⟩
    have power : (10 : ℚ) ^ scale ≠ 0 := by positivity
    have absolute : |q| = n / 10 ^ scale := (eq_div_iff power).mpr count
    by_cases negative : q < 0
    · refine ⟨⟨true, n, scale, fits, places⟩, ?_⟩
      rw [value, if_pos rfl, neg_div, ← absolute, abs_of_neg negative, neg_neg]
    · refine ⟨⟨false, n, scale, fits, places⟩, ?_⟩
      rw [value, if_neg Bool.false_ne_true, ← absolute, abs_of_nonneg (not_lt.mp negative)]

theorem abs_roundAway (places : ℕ) (q : ℚ) :
    |roundAway places q| * 10 ^ places = ⌊|q| * 10 ^ places + 1 / 2⌋₊ := by
  have power : (0 : ℚ) < 10 ^ places := by positivity
  rw [roundAway, abs_div, abs_of_pos power, div_mul_cancel₀ _ power.ne', abs_mul, Nat.abs_cast]
  rcases lt_trichotomy q 0 with negative | rfl | positive
  · simp [sign_neg negative]
  · have half : ⌊(2⁻¹ : ℚ)⌋₊ = 0 := Nat.floor_eq_zero.mpr (by norm_num)
    simp [half]
  · simp [sign_pos positive]

/-- The more places are kept, the more digits there are. -/
theorem abs_roundAway_mono {few many : ℕ} (fewer : few ≤ many) (q : ℚ) :
    |roundAway few q| * 10 ^ few ≤ |roundAway many q| * 10 ^ many := by
  rw [abs_roundAway, abs_roundAway, Nat.cast_le]
  apply Nat.floor_mono
  have power : (10 : ℚ) ^ few ≤ 10 ^ many := pow_le_pow_right₀ (by norm_num) fewer
  have longer := mul_le_mul_of_nonneg_left power (abs_nonneg q)
  linarith

/-- A number without further places is not changed. -/
theorem roundAway_eq_self {places n : ℕ} {q : ℚ} (count : |q| * 10 ^ places = n) :
    roundAway places q = q := by
  have power : (10 : ℚ) ^ places ≠ 0 := by positivity
  have floor : ⌊(n : ℚ) + 1 / 2⌋₊ = n := by
    rw [Nat.floor_eq_iff (by positivity)]
    constructor <;> linarith
  rw [roundAway, count, floor, ← count, ← mul_assoc, mul_div_cancel_right₀ _ power, sign_mul_abs]

theorem natural_of_le {places more n : ℕ} {q : ℚ} (count : |q| * 10 ^ places = n)
    (le : places ≤ more) : |q| * 10 ^ more = (n * 10 ^ (more - places) : ℕ) := by
  obtain ⟨extra, rfl⟩ := Nat.exists_eq_add_of_le le
  rw [Nat.add_sub_cancel_left, pow_add, ← mul_assoc, count]
  push_cast
  rfl

theorem Fits.roundAway_eq {q : ℚ} (fits : Fits q) : roundAway 28 q = q := by
  obtain ⟨scale, places, n, _, count⟩ := fits_iff.mp fits
  exact roundAway_eq_self (natural_of_le count places)

/-- The integer that is left of a number of units, when some of its places go. -/
theorem floor_eq_roundOff (n count : ℕ) : ⌊(n : ℚ) / 10 ^ count + 1 / 2⌋₊ = roundOff n count := by
  have power : (0 : ℚ) < 10 ^ count := by positivity
  obtain ⟨lower, upper⟩ := roundOff_eq_iff.mp (rfl : roundOff n count = roundOff n count)
  generalize roundOff n count = r at lower upper ⊢
  rw [Nat.floor_eq_iff (by positivity), div_add_div _ _ power.ne' two_ne_zero,
    le_div_iff₀ (by positivity), div_lt_iff₀ (by positivity)]
  constructor
  · have bound : (2 * 10 ^ count * r : ℚ) ≤ 2 * n + 10 ^ count := by exact_mod_cast lower
    linarith
  · have bound : (2 * n + 10 ^ count : ℚ) < 2 * 10 ^ count * (r + 1) := by exact_mod_cast upper
    linarith

theorem roundAway_ofUnits {places scale : ℕ} (fewer : scale ≤ places) (negative : Bool) (n : ℕ) :
    roundAway scale (ofUnits negative n places) =
      ofUnits negative (roundOff n (places - scale)) scale := by
  obtain ⟨gone, rfl⟩ := Nat.exists_eq_add_of_le fewer
  have power : (0 : ℚ) < 10 ^ gone := by positivity
  have count : |ofUnits negative n (scale + gone)| * 10 ^ scale = n / 10 ^ gone := by
    rw [eq_div_iff power.ne', mul_assoc, ← pow_add, abs_ofUnits]
  rw [roundAway, count, floor_eq_roundOff, Nat.add_sub_cancel_left]
  rcases Nat.eq_zero_or_pos n with rfl | positive
  · have none : roundOff 0 gone = 0 := by
      rw [← Nat.le_zero, ← roundOff_zero 0]
      exact roundOff_antitone (Nat.zero_le gone)
    simp [ofUnits, none]
  · have units : (0 : ℚ) < n / 10 ^ (scale + gone) := by positivity
    cases negative with
    | false => simp [ofUnits, sign_pos units]
    | true => simp [ofUnits, neg_div, sign_neg (neg_lt_zero.mpr units)]

/-- Of a number that is rounded to a decimal, the digits before the point are few enough. -/
theorem abs_roundAway_lt {d : Decimal} {q : ℚ} (rounded : d.value = roundAway d.scale q) :
    |roundAway 0 q| < 2 ^ 96 := by
  have least := abs_roundAway_mono (Nat.zero_le d.scale) q
  rw [← rounded, abs_value, pow_zero, mul_one] at least
  exact lt_of_le_of_lt least (by exact_mod_cast d.magnitude_lt)

theorem Fits.abs_roundAway_lt {q : ℚ} (fits : Fits q) : |roundAway 0 q| < 2 ^ 96 := by
  obtain ⟨d, rfl⟩ := fits
  exact Decimal.abs_roundAway_lt (roundAway_eq_self d.abs_value).symm

/-- A number that fits with its point moved to the left fits as it is, unless it is too large. -/
theorem Fits.of_div {q : ℚ} {exponent : ℕ} (fits : Fits (q / 10 ^ exponent))
    (small : |roundAway 0 q| < 2 ^ 96) : Fits q := by
  obtain ⟨scale, places, n, few, count⟩ := fits_iff.mp fits
  have power : (0 : ℚ) < 10 ^ exponent := by positivity
  rw [abs_div, abs_of_pos power] at count
  rw [fits_iff]
  by_cases enough : exponent ≤ scale
  · obtain ⟨left, rfl⟩ := Nat.exists_eq_add_of_le enough
    refine ⟨left, by omega, n, few, ?_⟩
    rwa [pow_add, ← mul_assoc, div_mul_cancel₀ _ power.ne'] at count
  · obtain ⟨more, rfl⟩ := Nat.exists_eq_add_of_le (not_le.mp enough).le
    have whole : |q| * 10 ^ 0 = (n * 10 ^ more : ℕ) := by
      push_cast
      rw [← count, pow_add]
      field_simp
    refine ⟨0, Nat.zero_le 28, n * 10 ^ more, ?_, whole⟩
    rw [roundAway_eq_self whole] at small
    rw [pow_zero, mul_one] at whole
    rw [whole] at small
    exact_mod_cast small

theorem abs_value_lt (d : Decimal) : |d.value| < 2 ^ 96 := by
  have power : (1 : ℚ) ≤ 10 ^ d.scale := one_le_pow₀ (by norm_num)
  calc |d.value| ≤ |d.value| * 10 ^ d.scale := le_mul_of_one_le_right (abs_nonneg _) power
    _ = d.magnitude := d.abs_value
    _ < 2 ^ 96 := by exact_mod_cast d.magnitude_lt

namespace Keeps

variable {d e : Decimal} {places : ℕ} {q : ℚ}

theorem unique (left : d.Keeps places q) (right : e.Keeps places q) : d.value = e.value := by
  have shorter : ∀ {d e : Decimal}, d.Keeps places q → e.Keeps places q → e.scale ≤ d.scale := by
    intro d e left right
    by_contra longer
    rw [not_le] at longer
    have places := right.scale_le
    have bound := e.scale_le
    rcases left.most with all | full
    · omega
    · have digits := full.trans (abs_roundAway_mono longer q)
      rw [← right.value, abs_value] at digits
      exact absurd e.magnitude_lt (by exact_mod_cast not_lt.mpr digits)
  rw [left.value, right.value, le_antisymm (shorter right left) (shorter left right)]

/-- A number that fits is kept as it is. -/
theorem exact_iff (keeps : d.Keeps places q) {n : ℕ} (count : |q| * 10 ^ places = n) :
    d.value = q ↔ Fits q := by
  constructor
  · exact fun same => ⟨d, same⟩
  · intro fits
    obtain ⟨scale, room, m, small, digits⟩ := fits_iff.mp fits
    by_cases enough : scale ≤ d.scale
    · rw [keeps.value, roundAway_eq_self (natural_of_le digits enough)]
    · rw [not_le] at enough
      rcases keeps.most with all | full
      · have whole : places ≤ d.scale := by
          have := keeps.scale_le
          omega
        rw [keeps.value, roundAway_eq_self (natural_of_le count whole)]
      · have more := full.trans (abs_roundAway_mono enough q)
        rw [roundAway_eq_self digits, digits] at more
        exact absurd small (by exact_mod_cast not_lt.mpr more)

end Keeps

theorem ofParts?_eq (negative : Bool) {magnitude scale : ℕ} (fits : magnitude < 2 ^ 96)
    (room : scale ≤ 28) : ∃ d : Decimal, ofParts? negative magnitude scale = some d ∧
      d.value = ofUnits negative magnitude scale ∧ d.scale = scale := by
  refine ⟨⟨negative, magnitude, scale, fits, room⟩, ?_, rfl, rfl⟩
  exact dif_pos ⟨fits, room⟩

/-- A number without an exponent is kept, unless its digits before the point are too many. -/
theorem signed?_keeps {n places : ℕ} {row : List Char} (reads : Reads n places (magnitude? row))
    (negative : Bool) :
    (∃ d, signed? negative row = some d ∧ d.Keeps places (ofUnits negative n places)) ∨
      (signed? negative row = none ∧ 2 ^ 96 ≤ |roundAway 0 (ofUnits negative n places)|) := by
  rw [signed?]
  generalize magnitude? row = result at reads ⊢
  cases reads with
  | exceeds large =>
    refine .inr ⟨rfl, ?_⟩
    have whole := abs_ofUnits negative (roundOff n places) 0
    rw [pow_zero, mul_one] at whole
    rw [roundAway_ofUnits (Nat.zero_le places), Nat.sub_zero, whole]
    exact_mod_cast large
  | @rounds kept scale rounds =>
    have least := rounds.scale_le
    obtain ⟨d, parts, value, rfl⟩ := ofParts?_eq (negative && kept != 0) rounds.fits
      (by omega : scale ≤ 28)
    have unsignedZero : ofUnits (negative && kept != 0) kept d.scale =
        ofUnits negative kept d.scale := by
      by_cases zero : kept = 0 <;> simp [ofUnits, zero]
    refine .inl ⟨d, parts, by omega, ?_, rounds.most.imp_right ?_⟩
    · rw [value, unsignedZero, roundAway_ofUnits (by omega), rounds.rounded]
    · intro full
      by_cases last : d.scale + 1 ≤ places
      · rw [roundAway_ofUnits last, abs_ofUnits]
        exact_mod_cast full
      · rw [show places - (d.scale + 1) = places - d.scale by omega, rounds.rounded] at full
        exact absurd rounds.fits (not_lt.mpr full)

theorem shiftDown?_eq (d : Decimal) {exponent : ℕ} (room : exponent ≤ 28) :
    ∃ e, d.shiftDown? exponent = some e ∧ e.value = roundAway 28 (d.value / 10 ^ exponent) := by
  have shifted : d.value / 10 ^ exponent = ofUnits d.negative d.magnitude (d.scale + exponent) := by
    rw [value_eq_ofUnits, ofUnits, ofUnits, div_div, pow_add]
  have small : roundOff d.magnitude (d.scale + exponent - 28) < 2 ^ 96 := by
    apply lt_of_le_of_lt (roundOff_antitone (Nat.zero_le _))
    rw [roundOff_zero]
    exact d.magnitude_lt
  obtain ⟨e, parts, value, _⟩ := ofParts?_eq d.negative small
    (by omega : d.scale + exponent - (d.scale + exponent - 28) ≤ 28)
  refine ⟨e, by rw [shiftDown?, if_neg (by omega)]; exact parts, ?_⟩
  rw [value, shifted]
  by_cases long : 28 ≤ d.scale + exponent
  · rw [roundAway_ofUnits long, Nat.sub_sub_self long]
  · have count := abs_ofUnits d.negative d.magnitude (d.scale + exponent)
    rw [roundAway_eq_self (natural_of_le count (by omega)),
      show d.scale + exponent - 28 = 0 by omega, roundOff_zero, Nat.sub_zero]

theorem shiftUp?_eq (d : Decimal) {exponent : ℕ} (room : exponent ≤ 28) :
    (∃ e, d.shiftUp? exponent = some e ∧ e.value = d.value * 10 ^ exponent) ∨
      (d.shiftUp? exponent = none ∧ 2 ^ 96 ≤ |d.value * 10 ^ exponent|) := by
  rw [shiftUp?]
  by_cases shorter : exponent ≤ d.scale
  · left
    obtain ⟨e, parts, value, _⟩ := ofParts?_eq d.negative d.magnitude_lt
      (by have := d.scale_le; omega : d.scale - exponent ≤ 28)
    refine ⟨e, by rw [if_pos shorter]; exact parts, ?_⟩
    obtain ⟨left, whole⟩ := Nat.exists_eq_add_of_le shorter
    rw [value, value_eq_ofUnits, whole, Nat.add_sub_cancel_left, ofUnits, ofUnits, pow_add]
    field_simp
  · have times : d.value * 10 ^ exponent =
        ofUnits d.negative (d.magnitude * 10 ^ (exponent - d.scale)) 0 := by
      obtain ⟨more, whole⟩ := Nat.exists_eq_add_of_le (not_le.mp shorter).le
      rw [value_eq_ofUnits, whole, Nat.add_sub_cancel_left, ofUnits, ofUnits, pow_add]
      push_cast
      cases d.negative <;> field_simp <;> simp
    rw [if_neg shorter, if_pos room, times]
    by_cases small : d.magnitude * 10 ^ (exponent - d.scale) < 2 ^ 96
    · left
      obtain ⟨e, parts, value, _⟩ := ofParts?_eq d.negative small (Nat.zero_le 28)
      exact ⟨e, parts, value⟩
    · right
      refine ⟨dif_neg fun both => small both.1, ?_⟩
      have count := abs_ofUnits d.negative (d.magnitude * 10 ^ (exponent - d.scale)) 0
      rw [pow_zero, mul_one] at count
      rw [count]
      exact_mod_cast not_lt.mp small

end ItemSchema.Decimal
