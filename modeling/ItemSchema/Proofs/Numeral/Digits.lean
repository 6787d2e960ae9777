import ItemSchema.Numeral.Digits
import Mathlib.Algebra.Group.Nat.Defs

/-! Rows of decimal digits read back as the numbers that they were written for, with or without
zeros in front, and different numbers have different rows. -/
namespace ItemSchema.Numeral

theorem digits_ne_nil (n : Nat) : digits n ≠ [] :=
  Nat.toDigits_ne_nil

theorem digits_isDigit (member : c ∈ digits n) : c.isDigit = true :=
  Nat.isDigit_of_mem_toDigits (by decide) (by decide) member

theorem digits_value (n : Nat) : Nat.ofDigitChars 10 (digits n) 0 = n :=
  Nat.ofDigitChars_ten_toDigits

theorem digits_injective (same : digits m = digits n) : m = n := by
  rw [← digits_value m, same, digits_value]

theorem digits_length_le (bound : n < 10 ^ width) (positive : 0 < width) :
    (digits n).length ≤ width :=
  (Nat.length_toDigits_le_iff (by decide) positive).mpr bound

theorem natural?_of_isDigit (nonempty : text ≠ []) (all : ∀ c ∈ text, c.isDigit = true) :
    natural? text = some (Nat.ofDigitChars 10 text 0) := by
  have full : text.isEmpty = false := by simpa using nonempty
  have digital : text.all Char.isDigit = true := by simpa using all
  simp [natural?, full, digital]

theorem unsigned?_of_isDigit (nonempty : text ≠ []) (all : ∀ c ∈ text, c.isDigit = true) :
    unsigned? text = some (Nat.ofDigitChars 10 text 0) := by
  cases text with
  | nil => contradiction
  | cons c rest =>
    have digit : c.isDigit = true := all c List.mem_cons_self
    have plus : c ≠ '+' := by rintro rfl; contradiction
    simp [unsigned?, plus, natural?_of_isDigit nonempty all]

@[simp] theorem natural?_digits (n : Nat) : natural? (digits n) = some n := by
  rw [natural?_of_isDigit (digits_ne_nil n) fun _ => digits_isDigit, digits_value]

theorem paddedDigits_isDigit (member : c ∈ paddedDigits width n) : c.isDigit = true := by
  rcases List.mem_append.mp member with zero | digit
  · rw [List.eq_of_mem_replicate zero]
    rfl
  · exact digits_isDigit digit

theorem paddedDigits_ne_nil (width n : Nat) : paddedDigits width n ≠ [] := by
  simp [paddedDigits, digits_ne_nil]

@[simp] theorem paddedDigits_value (width n : Nat) :
    Nat.ofDigitChars 10 (paddedDigits width n) 0 = n := by
  rw [paddedDigits, Nat.ofDigitChars_append, Nat.ofDigitChars_replicate_zero, Nat.mul_zero,
    digits_value]

@[simp] theorem natural?_paddedDigits (width n : Nat) :
    natural? (paddedDigits width n) = some n := by
  rw [natural?_of_isDigit (paddedDigits_ne_nil width n) fun _ => paddedDigits_isDigit,
    paddedDigits_value]

/-- A number that fits takes exactly the width. -/
theorem paddedDigits_length (bound : n < 10 ^ width) (positive : 0 < width) :
    (paddedDigits width n).length = width := by
  have fits := digits_length_le bound positive
  rw [paddedDigits, List.length_append, List.length_replicate]
  omega

theorem isDigit_bounds {c : Char} (digit : c.isDigit = true) : 48 ≤ c.toNat ∧ c.toNat < 58 := by
  simp only [Char.isDigit, Bool.and_eq_true, decide_eq_true_eq] at digit
  have lower : 48 ≤ c.toNat := digit.1
  have upper : c.toNat ≤ 57 := digit.2
  omega

theorem digitValue_lt {c : Char} (digit : c.isDigit = true) : digitValue c < 10 := by
  have upper := (isDigit_bounds digit).2
  change c.toNat - 48 < 10
  omega

theorem ofDigitChars_cons_zero (c : Char) (row : List Char) :
    Nat.ofDigitChars 10 (c :: row) 0 =
      10 ^ row.length * digitValue c + Nat.ofDigitChars 10 row 0 := by
  rw [Nat.ofDigitChars_cons, Nat.mul_zero, Nat.zero_add, Nat.ofDigitChars_eq_ofDigitChars_zero]
  rfl

theorem ofDigitChars_lt (row : List Char) (all : ∀ c ∈ row, c.isDigit = true) :
    Nat.ofDigitChars 10 row 0 < 10 ^ row.length := by
  induction row with
  | nil => simp
  | cons c row ih =>
    obtain ⟨digit, all⟩ := List.forall_mem_cons.mp all
    have rest := ih all
    have := Nat.mul_le_mul_left (10 ^ row.length) (Nat.le_of_lt_succ (digitValue_lt digit))
    rw [ofDigitChars_cons_zero, List.length_cons, Nat.pow_succ]
    omega

/-- The front of a row is the quotient by the place of what is left out. -/
theorem ofDigitChars_take (all : ∀ c ∈ row, c.isDigit = true) (count : Nat) :
    Nat.ofDigitChars 10 (row.take count) 0 =
      Nat.ofDigitChars 10 row 0 / 10 ^ (row.length - count) := by
  have back := ofDigitChars_lt (row.drop count) fun c member =>
    all c (List.mem_of_mem_drop member)
  rw [List.length_drop] at back
  have split : Nat.ofDigitChars 10 row 0 = 10 ^ (row.length - count) *
      Nat.ofDigitChars 10 (row.take count) 0 + Nat.ofDigitChars 10 (row.drop count) 0 := by
    rw [← List.length_drop, ← Nat.ofDigitChars_eq_ofDigitChars_zero, ← Nat.ofDigitChars_append,
      List.take_append_drop]
  rw [split, Nat.mul_add_div (Nat.pow_pos (by decide)), Nat.div_eq_of_lt back, Nat.add_zero]

end ItemSchema.Numeral
