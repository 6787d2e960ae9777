import ItemSchema.Numeral.Int128
import ItemSchema.Proofs.Numeral.Digits

/-! Integers of 128 bits read back from their text. -/
namespace ItemSchema.Int128

theorem signed?_digits (n : Nat) : Numeral.signed? (Numeral.digits n) = some (n : Int) := by
  have read := Numeral.unsigned?_of_isDigit (Numeral.digits_ne_nil n) fun _ =>
    Numeral.digits_isDigit
  rw [Numeral.digits_value] at read
  cases row : Numeral.digits n with
  | nil => exact absurd row (Numeral.digits_ne_nil n)
  | cons c rest =>
    have digit : c.isDigit = true := Numeral.digits_isDigit (n := n) (by simp [row])
    have minus : c ≠ '-' := by rintro rfl; contradiction
    rw [row] at read
    simp [Numeral.signed?, minus, read]

theorem ofText?_toText (n : Int128) : ofText? n.toText = some n := by
  have read : Numeral.signed? n.toText.toList = some n.toInt := by
    by_cases sign : n.toInt < 0
    · have chars : n.toText.toList = '-' :: Numeral.digits n.toInt.natAbs := by
        simp [toText, sign]
      rw [chars, Numeral.signed?, Numeral.natural?_digits]
      change some (-(n.toInt.natAbs : Int)) = some n.toInt
      rw [Int.ofNat_natAbs_of_nonpos (Int.le_of_lt sign), Int.neg_neg]
    · have chars : n.toText.toList = Numeral.digits n.toInt.natAbs := by
        simp [toText, sign]
      rw [chars, signed?_digits, Int.natAbs_of_nonneg (Int.not_lt.mp sign)]
  rw [ofText?, read, Option.bind_some, ofInt?, dif_pos ⟨n.lower, n.upper⟩]

end ItemSchema.Int128
