import ItemSchema.Json.Printer
import ItemSchema.Json.Token
import ItemSchema.Proofs.Numeral.Digits
import Mathlib.Algebra.Group.Int.Defs

/-! Integers of 64 bits in JSON text, with or without a sign: what is printed for one is scanned as
this integer and nothing else. -/
namespace ItemSchema

namespace Numeral

/-- Only the zero starts with a zero. -/
theorem digits_head_ne_zero (positive : n ≠ 0) (row : digits n = c :: rest) : c ≠ '0' := by
  rintro rfl
  have value := digits_value n
  have all : ∀ c ∈ rest, c.isDigit = true := fun c member =>
    digits_isDigit (n := n) (by simp [row, member])
  rw [row, Nat.ofDigitChars_cons] at value
  have small : n < 10 ^ rest.length := value ▸ ofDigitChars_lt rest all
  cases rest with
  | nil => exact positive (by simpa using small)
  | cons d rest =>
    have short := digits_length_le small (Nat.succ_pos _)
    rw [row, List.length_cons] at short
    exact absurd short (Nat.not_succ_le_self _)

end Numeral

namespace Json.Token

theorem scan_silent (stepped : step state c = ([], after)) (rest : List Char) :
    scan state (c :: rest) = scan after rest := by
  rw [scan, stepped]
  rfl

theorem first_digit (digit : c.isDigit = true) (nonzero : c ≠ '0') :
    first c = ([], numberStart .whole false (Numeral.digitValue c)) := by
  unfold first
  split
  all_goals first | contradiction | skip
  rw [if_pos digit]

/-- Further digits of a number that started with another digit than zero. -/
theorem scan_whole (negative : Bool) (mantissa : Nat) {row : List Char}
    (all : ∀ c ∈ row, c.isDigit = true) :
    scan (numberStart .whole negative mantissa) row =
      [NumberScan.token ⟨.whole, negative, Nat.ofDigitChars 10 row mantissa, 0, false, 0⟩] := by
  induction row generalizing mantissa with
  | nil => rfl
  | cons c rest ih =>
    obtain ⟨digit, later⟩ := List.forall_mem_cons.mp all
    have grown : step (numberStart .whole negative mantissa) c =
        ([], numberStart .whole negative (mantissa * 10 + Numeral.digitValue c)) := by
      simp [numberStart, step, NumberScan.next?, digit]
    rw [scan_silent grown, ih _ later, Nat.ofDigitChars_cons, Nat.mul_comm 10, Numeral.digitValue]

/-- The digits of a positive number, perhaps behind a minus. -/
theorem scan_signed (negative : Bool) (positive : m ≠ 0) :
    scan .between ((if negative then ['-'] else []) ++ Numeral.digits m) =
      [NumberScan.token ⟨.whole, negative, m, 0, false, 0⟩] := by
  cases row : Numeral.digits m with
  | nil => exact absurd row (Numeral.digits_ne_nil m)
  | cons c rest =>
    have nonzero := Numeral.digits_head_ne_zero positive row
    obtain ⟨digit, later⟩ : c.isDigit = true ∧ ∀ c ∈ rest, c.isDigit = true :=
      List.forall_mem_cons.mp fun c member => Numeral.digits_isDigit (row ▸ member)
    have value := Numeral.digits_value m
    rw [row, Nat.ofDigitChars_cons, Nat.mul_zero, Nat.zero_add] at value
    cases negative with
    | true =>
      have minus : step .between '-' = ([], numberStart .sign true 0) := rfl
      have started : step (numberStart .sign true 0) c =
          ([], numberStart .whole true (Numeral.digitValue c)) := by
        simp [numberStart, step, NumberScan.next?, nonzero, digit]
      rw [if_pos rfl, List.singleton_append, scan_silent minus, scan_silent started,
        scan_whole _ _ later, Numeral.digitValue, value]
    | false =>
      have started : step .between c = ([], numberStart .whole false (Numeral.digitValue c)) :=
        first_digit digit nonzero
      rw [if_neg Bool.false_ne_true, List.nil_append, scan_silent started, scan_whole _ _ later,
        Numeral.digitValue, value]

/-- Zero is the one integer that may not have a sign. -/
theorem token_whole {n : Int} (lower : -2 ^ 63 ≤ n) (upper : n < 2 ^ 64) (nonzero : n ≠ 0) :
    NumberScan.token ⟨.whole, decide (n < 0), n.natAbs, 0, false, 0⟩ = .number (.integer n) := by
  have signed : (if decide (n < 0) = true then -(n.natAbs : Int) else n.natAbs) = n := by
    simp only [decide_eq_true_eq]
    split <;> omega
  have lower : -Int.pow 2 63 ≤ n := lower
  have upper : n < Int.pow 2 64 := upper
  rw [NumberScan.token]
  dsimp only
  rw [signed, decide_eq_true lower, decide_eq_true upper,
    decide_eq_false (mt Int.natAbs_eq_zero.mp nonzero), Bool.and_false]
  rfl

/-- An integer of 64 bits is scanned as itself. -/
theorem ofText_integer {n : Int} (lower : -2 ^ 63 ≤ n) (upper : n < 2 ^ 64) :
    ofText (Number.integer n).toText = [.number (.integer n)] := by
  by_cases zero : n = 0
  · subst zero
    rfl
  · have chars : (Number.integer n).toText.toList =
        (if decide (n < 0) then ['-'] else []) ++ Numeral.digits n.natAbs := by
      by_cases negative : n < 0 <;> simp [Number.toText, negative]
    rw [ofText, chars, scan_signed _ (Int.natAbs_ne_zero.mpr zero), token_whole lower upper zero]

end Json.Token

end ItemSchema
