import ItemSchema.Numeral.Decimal.Reader
import ItemSchema.Proofs.Numeral.Digits
import Mathlib.Data.Rat.Cast.Order
import Mathlib.Tactic.Positivity
import Mathlib.Tactic.Ring

/-! Decimal text reads back as the number that was written, the scale included, but for the sign of
a zero. The normal form of a number is a function of its rational value alone. -/
namespace ItemSchema.Decimal

/-- What is left of a number when a zero loses its sign. -/
def dropZeroSign (d : Decimal) : Decimal :=
  { d with negative := d.negative && d.magnitude != 0 }

theorem magnitudeFrom_digits (magnitude scale : Nat) (pointed started : Bool) {row : List Char}
    (all : ∀ c ∈ row, c.isDigit = true) (fits : Nat.ofDigitChars 10 row magnitude < 2 ^ 96)
    (places : pointed = true → scale + row.length ≤ 28) (rest : List Char) :
    magnitudeFrom magnitude scale pointed started (row ++ rest) =
      magnitudeFrom (Nat.ofDigitChars 10 row magnitude)
        (if pointed then scale + row.length else scale) pointed (started || !row.isEmpty) rest := by
  induction row generalizing magnitude scale started with
  | nil => simp
  | cons c row ih =>
    have digit : c.isDigit = true := all c List.mem_cons_self
    have step : magnitude * 10 + Numeral.digitValue c = 10 * magnitude + (c.toNat - '0'.toNat) := by
      rw [Nat.mul_comm, Numeral.digitValue]
    rw [Nat.ofDigitChars_cons, ← step] at fits
    have small : magnitude * 10 + Numeral.digitValue c < 2 ^ 96 := by
      rw [Nat.ofDigitChars_eq_ofDigitChars_zero] at fits
      have grows := Nat.le_mul_of_pos_left (magnitude * 10 + Numeral.digitValue c)
        (Nat.pow_pos (n := row.length) (show 0 < 10 by decide))
      omega
    have room : (!pointed || decide (scale < 28)) = true := by
      cases pointed with
      | false => rfl
      | true =>
        have := places rfl
        rw [List.length_cons] at this
        exact decide_eq_true (by omega)
    have place : (decide (magnitude * 10 + Numeral.digitValue c < Nat.pow 2 96) &&
        (!pointed || decide (scale < 28))) = true := by
      rw [room, Bool.and_true]
      exact decide_eq_true small
    have next := ih (magnitude * 10 + Numeral.digitValue c) (if pointed then scale + 1 else scale)
      true (fun c member => all c (List.mem_cons_of_mem _ member)) fits (by
        intro isPointed
        have := places isPointed
        rw [List.length_cons] at this
        rw [if_pos isPointed]
        omega)
    rw [List.cons_append, magnitudeFrom, if_pos digit]
    dsimp only
    rw [if_pos place, next, Nat.ofDigitChars_cons, step]
    cases pointed <;> simp [Nat.add_left_comm, Nat.add_comm]

/-- The digits of a number with those of its scale behind a point. -/
theorem magnitude?_digits {magnitude scale : Nat} (fits : magnitude < 2 ^ 96)
    (places : scale ≤ 28) :
    magnitude? (Numeral.digits (magnitude / 10 ^ scale) ++
      if scale = 0 then [] else
        '.' :: Numeral.paddedDigits scale (magnitude % 10 ^ scale)) =
      some (magnitude, scale) := by
  have whole : Nat.ofDigitChars 10 (Numeral.digits (magnitude / 10 ^ scale)) 0 < 2 ^ 96 := by
    rw [Numeral.digits_value]
    exact Nat.lt_of_le_of_lt (Nat.div_le_self _ _) fits
  have started : (Numeral.digits (magnitude / 10 ^ scale)).isEmpty = false := by
    simpa using Numeral.digits_ne_nil _
  rw [magnitude?, magnitudeFrom_digits 0 0 false false (fun _ => Numeral.digits_isDigit) whole
    (by simp), Numeral.digits_value, started]
  by_cases unscaled : scale = 0
  · subst unscaled
    simp [magnitudeFrom]
  · have length : (Numeral.paddedDigits scale (magnitude % 10 ^ scale)).length = scale :=
      Numeral.paddedDigits_length (Nat.mod_lt _ (by positivity)) (by omega)
    have all : Nat.ofDigitChars 10 (Numeral.paddedDigits scale (magnitude % 10 ^ scale))
        (magnitude / 10 ^ scale) = magnitude := by
      rw [Nat.ofDigitChars_eq_ofDigitChars_zero, Numeral.paddedDigits_value, length,
        Nat.div_add_mod]
    have point : magnitudeFrom (magnitude / 10 ^ scale) 0 false true
        ('.' :: Numeral.paddedDigits scale (magnitude % 10 ^ scale)) =
        magnitudeFrom (magnitude / 10 ^ scale) 0 true true
          (Numeral.paddedDigits scale (magnitude % 10 ^ scale)) := rfl
    have fraction := magnitudeFrom_digits (magnitude / 10 ^ scale) 0 true true
      (fun _ => Numeral.paddedDigits_isDigit) (by rwa [all]) (by intro; omega) []
    rw [List.append_nil, all] at fraction
    simp [unscaled, point, fraction, length, magnitudeFrom]

theorem plain?_unsigned (minus : c ≠ '-') (plus : c ≠ '+') (rest : List Char) :
    plain? (c :: rest) = signed? false (c :: rest) := by
  unfold plain?
  split
  · rename_i same; exact absurd (List.cons.inj same).1 minus
  · rename_i same; exact absurd (List.cons.inj same).1 plus
  · rfl

theorem plain?_digits (negative : Bool) (first : c.isDigit = true) (rest : List Char) :
    plain? ((if negative then ['-'] else []) ++ c :: rest) = signed? negative (c :: rest) := by
  cases negative with
  | true => rfl
  | false =>
    have minus : c ≠ '-' := by rintro rfl; contradiction
    have plus : c ≠ '+' := by rintro rfl; contradiction
    exact plain?_unsigned minus plus rest

theorem toText_chars (d : Decimal) :
    d.toText.toList = (if d.negative then ['-'] else []) ++
      (Numeral.digits (d.magnitude / 10 ^ d.scale) ++
        if d.scale = 0 then [] else
          '.' :: Numeral.paddedDigits d.scale (d.magnitude % 10 ^ d.scale)) := by
  cases sign : d.negative <;> simp [toText, sign]

/-- Reading undoes writing, but a zero is read without a sign. -/
theorem ofText?_toText (d : Decimal) : ofText? d.toText = some d.dropZeroSign := by
  have read := magnitude?_digits d.magnitude_lt d.scale_le
  have plain : plain? d.toText.toList = some d.dropZeroSign := by
    rw [toText_chars]
    cases whole : Numeral.digits (d.magnitude / 10 ^ d.scale) with
    | nil => exact absurd whole (Numeral.digits_ne_nil _)
    | cons c rest =>
      have first : c.isDigit = true :=
        Numeral.digits_isDigit (n := d.magnitude / 10 ^ d.scale) (by simp [whole])
      rw [whole, List.cons_append] at read
      rw [List.cons_append, plain?_digits d.negative first, signed?, read]
      simp only [Option.bind_eq_bind, Option.bind_some, ofParts?, d.magnitude_lt, d.scale_le,
        and_self, dite_true, dropZeroSign]
  simp [ofText?, plain]

/-- The rational number that is meant. -/
def value (d : Decimal) : ℚ :=
  (if d.negative then -(d.magnitude : ℚ) else d.magnitude) / 10 ^ d.scale

@[simp] theorem value_dropZeroSign (d : Decimal) : d.dropZeroSign.value = d.value := by
  by_cases zero : d.magnitude = 0 <;> simp [value, dropZeroSign, zero]

theorem value_of_toText {d e : Decimal} (same : d.toText = e.toText) : d.value = e.value := by
  have read := ofText?_toText d
  rw [same, ofText?_toText, Option.some.injEq] at read
  rw [← value_dropZeroSign d, ← read, value_dropZeroSign]

theorem stripZeros_restore (magnitude scale : Nat) :
    (stripZeros magnitude scale).1 * 10 ^ scale =
      magnitude * 10 ^ (stripZeros magnitude scale).2 := by
  induction scale generalizing magnitude with
  | zero => simp [stripZeros]
  | succ scale ih =>
    unfold stripZeros
    split
    · rename_i last
      have tens : magnitude / 10 * 10 = magnitude := by omega
      rw [Nat.pow_succ, ← Nat.mul_assoc, ih, Nat.mul_right_comm, tens]
    · rfl

theorem stripZeros_last (magnitude scale : Nat) :
    (stripZeros magnitude scale).2 = 0 ∨ (stripZeros magnitude scale).1 % 10 ≠ 0 := by
  induction scale generalizing magnitude with
  | zero => simp [stripZeros]
  | succ scale ih =>
    unfold stripZeros
    split
    · exact ih _
    · exact .inr ‹_›

theorem value_normalize (d : Decimal) : d.normalize.value = d.value := by
  have restore := stripZeros_restore d.magnitude d.scale
  have same : ((stripZeros d.magnitude d.scale).1 : ℚ) / 10 ^ (stripZeros d.magnitude d.scale).2 =
      d.magnitude / 10 ^ d.scale := by
    rw [div_eq_div_iff (by positivity) (by positivity)]
    exact_mod_cast restore
  by_cases zero : d.magnitude = 0
  · have stripped : (stripZeros d.magnitude d.scale).1 = 0 := by
      have := (stripZeros_bounds d.magnitude d.scale).1
      omega
    simp [value, normalize, zero] at stripped ⊢
    simp [stripped]
  · cases sign : d.negative <;> simp [value, normalize, sign, zero, neg_div, same]

/-- A magnitude without zeros at its end is determined by its value. -/
theorem reduced_unique {m n s t : Nat} (left : s = 0 ∨ m % 10 ≠ 0) (right : t = 0 ∨ n % 10 ≠ 0)
    (same : m * 10 ^ t = n * 10 ^ s) : m = n ∧ s = t := by
  have shorter : ∀ {m n s t : Nat}, (t = 0 ∨ n % 10 ≠ 0) → m * 10 ^ t = n * 10 ^ s → t ≤ s := by
    intro m n s t reduced same
    by_contra longer
    obtain ⟨k, rfl⟩ : ∃ k, t = s + (k + 1) := ⟨t - s - 1, by omega⟩
    have cancelled : n = m * 10 ^ k * 10 := by
      apply Nat.eq_of_mul_eq_mul_right (show 0 < 10 ^ s by positivity)
      rw [← same]
      ring
    omega
  have equal : s = t := le_antisymm (shorter left same.symm) (shorter right same)
  subst equal
  exact ⟨Nat.eq_of_mul_eq_mul_right (by positivity) same, rfl⟩

/-- Equal values have equal cross products, and other than at zero one sign. -/
theorem cross_of_value {d e : Decimal} (same : d.value = e.value) :
    d.magnitude * 10 ^ e.scale = e.magnitude * 10 ^ d.scale ∧
      (d.magnitude ≠ 0 → d.negative = e.negative) := by
  have left : (0 : ℚ) < 10 ^ d.scale := by positivity
  have right : (0 : ℚ) < 10 ^ e.scale := by positivity
  rw [value, value, div_eq_div_iff left.ne' right.ne'] at same
  have opposite : ∀ {m n s t : Nat}, -(m : ℚ) * 10 ^ t = n * 10 ^ s → m = 0 ∧ n = 0 := by
    intro m n s t crossed
    have sum : m * 10 ^ t + n * 10 ^ s = 0 := by
      have : (m : ℚ) * 10 ^ t + n * 10 ^ s = 0 := by rw [← crossed]; ring
      exact_mod_cast this
    have zeros := Nat.add_eq_zero_iff.mp sum
    exact ⟨by simpa using zeros.1, by simpa using zeros.2⟩
  cases signs : d.negative <;> cases sign : e.negative <;>
    simp only [signs, sign, if_true, if_false, Bool.false_eq_true] at same
  · exact ⟨by exact_mod_cast same, fun _ => rfl⟩
  · obtain ⟨zero, nought⟩ := opposite same.symm
    simp [zero, nought]
  · obtain ⟨zero, nought⟩ := opposite same
    simp [zero, nought]
  · rw [neg_mul, neg_mul, neg_inj] at same
    exact ⟨by exact_mod_cast same, fun _ => rfl⟩

/-- Numbers have one normal form if and only if they have one value. -/
theorem normalize_eq_iff {d e : Decimal} : d.normalize = e.normalize ↔ d.value = e.value := by
  constructor
  · intro same
    rw [← value_normalize d, same, value_normalize]
  · intro same
    obtain ⟨_, sign⟩ := cross_of_value same
    obtain ⟨crossed, _⟩ := cross_of_value (d := d.normalize) (e := e.normalize)
      (by rw [value_normalize, same, value_normalize])
    obtain ⟨magnitude, scale⟩ := reduced_unique (stripZeros_last d.magnitude d.scale)
      (stripZeros_last e.magnitude e.scale) crossed
    have zero : d.magnitude = 0 ↔ e.magnitude = 0 := by
      have cross := (cross_of_value same).1
      constructor <;> intro none <;> simpa [none] using cross
    have negative : (d.negative && d.magnitude != 0) = (e.negative && e.magnitude != 0) := by
      by_cases none : d.magnitude = 0
      · simp [none, zero.mp none]
      · rw [sign none, bne_iff_ne.mpr none, bne_iff_ne.mpr (zero.not.mp none)]
    simp only [normalize, Decimal.mk.injEq]
    exact ⟨negative, magnitude, scale⟩

end ItemSchema.Decimal
