import ItemSchema.Proofs.Numeral.Digits
import ItemSchema.Proofs.Text.Bytes
import Mathlib

/-! The order of numbers that are written in columns. Rows of digits of one length are ordered as
the numbers that they were written for, and columns of such rows as the rows of their numbers. -/
namespace ItemSchema

section

variable {α β : Type} [LinearOrder α] [LinearOrder β]

/-- What is placed apart by something else is compared by that first. -/
theorem compare_eq_then {a b : α} {c d : β} (below : c < d → a < b) (above : d < c → b < a)
    (level : c = d → compare a b = o) : compare a b = (compare c d).then o := by
  rcases lt_trichotomy c d with less | same | more
  · rw [compare_lt_iff_lt.mpr less, compare_lt_iff_lt.mpr (below less), Ordering.lt_then]
  · rw [compare_eq_iff_eq.mpr same, level same, Ordering.eq_then]
  · rw [compare_gt_iff_gt.mpr more, compare_gt_iff_gt.mpr (above more), Ordering.gt_then]

theorem compare_eq_compare {a b : α} {c d : β} (below : c < d → a < b) (above : d < c → b < a)
    (level : c = d → a = b) : compare a b = compare c d :=
  (compare_eq_then below above fun same => compare_eq_iff_eq.mpr (level same)).trans
    Ordering.then_eq

end

namespace Numeral

variable {c : Char}

theorem isDigit_ascii (digit : c.isDigit = true) : c.val ≤ 127 := by
  have upper := (isDigit_bounds digit).2
  rw [UInt32.le_iff_toNat_le]
  change c.toNat ≤ 127
  omega

/-- Digits have consecutive bytes. -/
theorem toUInt8_digit (digit : c.isDigit = true) : c.toUInt8.toNat = 48 + digitValue c := by
  obtain ⟨lower, upper⟩ := isDigit_bounds digit
  change c.toNat % 256 = 48 + (c.toNat - 48)
  omega

theorem compare_add (k m n : Nat) : compare (k + m) (k + n) = compare m n :=
  compare_eq_compare (by omega) (by omega) (by omega)

/-- The leading digits decide, and the others where those are the same. -/
theorem compare_leading {place low low' : Nat} (bound : low < place) (bound' : low' < place)
    (high high' : Nat) : compare (place * high + low) (place * high' + low') =
      (compare high high').then (compare low low') := by
  have apart : ∀ {m n low low'}, m < n → low < place → place * m + low < place * n + low' := by
    intro m n low low' less bound
    have step := Nat.mul_le_mul_left place (Nat.succ_le_of_lt less)
    rw [Nat.mul_succ] at step
    omega
  refine compare_eq_then (fun less => apart less bound) (fun more => apart more bound') ?_
  rintro rfl
  exact compare_add ..

/-- The first digit that differs decides. -/
theorem compare_digits {row other : List Char} (sameLength : row.length = other.length)
    (digits : ∀ c ∈ row, c.isDigit = true) (others : ∀ c ∈ other, c.isDigit = true) :
    compare (row.map Char.toUInt8) (other.map Char.toUInt8) =
      compare (Nat.ofDigitChars 10 row 0) (Nat.ofDigitChars 10 other 0) := by
  induction row generalizing other with
  | nil =>
    obtain rfl := List.length_eq_zero_iff.mp sameLength.symm
    rfl
  | cons c row ih =>
    cases other with
    | nil => contradiction
    | cons d other =>
      obtain ⟨digit, digits⟩ := List.forall_mem_cons.mp digits
      obtain ⟨otherDigit, others⟩ := List.forall_mem_cons.mp others
      have sameLength : row.length = other.length := Nat.succ.inj sameLength
      have bound := ofDigitChars_lt row digits
      have otherBound := ofDigitChars_lt other others
      rw [← sameLength] at otherBound
      rw [List.map_cons, List.map_cons, List.compare_cons_cons, ih sameLength digits others,
        UInt8.compare_toNat, toUInt8_digit digit, toUInt8_digit otherDigit, compare_add,
        ofDigitChars_cons_zero, ofDigitChars_cons_zero, ← sameLength,
        compare_leading bound otherBound]

/-- Numbers that are padded to one width are ordered as texts. -/
theorem compare_paddedDigits (bound : m < 10 ^ width) (otherBound : n < 10 ^ width)
    (positive : 0 < width) :
    compare ((paddedDigits width m).map Char.toUInt8) ((paddedDigits width n).map Char.toUInt8) =
      compare m n := by
  have length := paddedDigits_length bound positive
  have otherLength := paddedDigits_length otherBound positive
  rw [compare_digits (length.trans otherLength.symm) (fun _ => paddedDigits_isDigit)
    (fun _ => paddedDigits_isDigit), paddedDigits_value, paddedDigits_value]

/-- A row of digits is determined by its length and its value. -/
theorem ofDigitChars_inj {row other : List Char} (sameLength : row.length = other.length)
    (digits : ∀ c ∈ row, c.isDigit = true) (others : ∀ c ∈ other, c.isDigit = true)
    (same : Nat.ofDigitChars 10 row 0 = Nat.ofDigitChars 10 other 0) : row = other := by
  have level := compare_digits sameLength digits others
  rw [Nat.compare_eq_eq.mpr same, Std.LawfulEqCmp.compare_eq_iff_eq,
    ← Text.utf8_ofList row fun c member => isDigit_ascii (digits c member),
    ← Text.utf8_ofList other fun c member => isDigit_ascii (others c member), Text.utf8_inj,
    String.ofList_inj] at level
  exact level

/-- The front of a padded number is padded itself. -/
theorem paddedDigits_take (bound : n < 10 ^ (count + rest)) (positive : 0 < count) :
    (paddedDigits (count + rest) n).take count = paddedDigits count (n / 10 ^ rest) := by
  have length := paddedDigits_length bound (by omega)
  have quotient : n / 10 ^ rest < 10 ^ count := by
    rw [Nat.div_lt_iff_lt_mul (Nat.pow_pos (by decide)), ← Nat.pow_add]
    exact bound
  refine ofDigitChars_inj ?_ (fun c member => paddedDigits_isDigit (List.mem_of_mem_take member))
    (fun _ => paddedDigits_isDigit) ?_
  · rw [List.length_take, length, paddedDigits_length quotient positive]
    omega
  · rw [ofDigitChars_take fun _ => paddedDigits_isDigit, paddedDigits_value, paddedDigits_value,
      length, Nat.add_sub_cancel_left]

end Numeral

/-- A place for a number of that many digits, with a mark of seven bits behind it. -/
structure Column where
  width : Nat
  mark : Char
  positive : 0 < width := by decide
  ascii : mark.val ≤ 127 := by decide

def Column.Fits (column : Column) (n : Nat) : Prop :=
  n < 10 ^ column.width

/-- Numbers in columns. -/
def Text.columns : List Column → List Nat → List Char
  | column :: rest, n :: fields =>
    Numeral.paddedDigits column.width n ++ column.mark :: Text.columns rest fields
  | _, _ => []

section

variable {layout : List Column} {fields others : List Nat}

theorem columns_ascii (layout : List Column) (fields : List Nat) :
    ∀ c ∈ Text.columns layout fields, c.val ≤ 127 := by
  fun_induction Text.columns layout fields with
  | case1 column rest n fields ih =>
    intro c member
    rcases List.mem_append.mp member with digit | member
    · exact Numeral.isDigit_ascii (Numeral.paddedDigits_isDigit digit)
    · rcases List.mem_cons.mp member with rfl | member
      · exact column.ascii
      · exact ih c member
  | case2 => simp

theorem columns_length (fit : List.Forall₂ Column.Fits layout fields) :
    (Text.columns layout fields).length = (layout.map fun column => column.width + 1).sum := by
  induction fit with
  | nil => rfl
  | @cons column n _ _ fits _ ih =>
    rw [Text.columns, List.length_append, List.length_cons, ih, List.map_cons, List.sum_cons,
      Numeral.paddedDigits_length fits column.positive]
    omega

/-- Columns compare byte by byte as the rows of their numbers. -/
theorem compare_columns (fit : List.Forall₂ Column.Fits layout fields)
    (otherFit : List.Forall₂ Column.Fits layout others) :
    Text.byteOrder (String.ofList (Text.columns layout fields))
      (String.ofList (Text.columns layout others)) = compare fields others := by
  rw [Text.byteOrder, Text.utf8_ofList _ (columns_ascii layout fields),
    Text.utf8_ofList _ (columns_ascii layout others)]
  induction fit generalizing others with
  | nil =>
    cases otherFit
    rfl
  | @cons column _ _ _ fits _ ih =>
    cases otherFit with
    | cons otherFits otherFit =>
      have sameLength := (Numeral.paddedDigits_length fits column.positive).trans
        (Numeral.paddedDigits_length otherFits column.positive).symm
      rw [Text.columns, Text.columns, List.map_append, List.map_append,
        compare_append (by rw [List.length_map, List.length_map, sameLength]),
        Numeral.compare_paddedDigits fits otherFits column.positive, List.map_cons, List.map_cons,
        List.compare_cons_cons, List.compare_cons_cons, ih otherFit]
      simp only [Std.ReflCmp.compare_self, Ordering.eq_then]

end

end ItemSchema
