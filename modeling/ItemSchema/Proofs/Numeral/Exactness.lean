import ItemSchema.Proofs.Numeral.Literal

/-! Which written numbers are read as what they denote. The mantissa is read first and rounded if it
has to be, and only then does the exponent move its point. -/
namespace ItemSchema

open Decimal (Fits roundAway)

namespace Numeral.Literal

/-- What is taken for a number: the places of its mantissa that are kept, and 28 places of what the
exponent makes of them. -/
structure ReadAs (l : Literal) (d : Decimal) : Prop where
  power_le : |l.power| ≤ 28
  kept : ∃ first : Decimal, first.Keeps l.mantissa.places l.mantissa.value ∧
    |first.value * 10 ^ l.power| < 2 ^ 96 ∧ d.value = roundAway 28 (first.value * 10 ^ l.power)

/-- The numbers that lose nothing. A mantissa that does not fit is rounded, even if the exponent
would have made it fit. -/
structure Exact (l : Literal) : Prop where
  power_le : |l.power| ≤ 28
  mantissa : Fits l.mantissa.value
  number : Fits l.value

/-- Nothing is taken for the number, and nothing would be exact. -/
def Unread (l : Literal) : Prop :=
  ¬ l.Exact ∧ ∀ d, ¬ l.ReadAs d

end Numeral.Literal

theorem Numeral.Exponent.shift?_eq (e : Exponent) (d : Decimal) :
    (∃ shifted, e.shift? d = some shifted ∧ |e.power| ≤ 28 ∧ |d.value * 10 ^ e.power| < 2 ^ 96 ∧
        shifted.value = roundAway 28 (d.value * 10 ^ e.power)) ∨
      (e.shift? d = none ∧ (|e.power| ≤ 28 → 2 ^ 96 ≤ |d.value * 10 ^ e.power|)) := by
  rw [e.abs_power, Exponent.shift?, Exponent.power]
  by_cases room : e.size ≤ 28
  · cases e.sign.isNegative with
    | true =>
      left
      obtain ⟨shifted, read, value⟩ := d.shiftDown?_eq room
      have down : d.value * 10 ^ (-(e.size : ℤ)) = d.value / 10 ^ e.size := by
        rw [zpow_neg, zpow_natCast, div_eq_mul_inv]
      refine ⟨shifted, read, by exact_mod_cast room, ?_, ?_⟩
      · have power : (1 : ℚ) ≤ 10 ^ e.size := one_le_pow₀ (by norm_num)
        rw [if_pos rfl, down, abs_div, abs_of_pos (zero_lt_one.trans_le power)]
        exact lt_of_le_of_lt (div_le_self (abs_nonneg _) power) d.abs_value_lt
      · rw [if_pos rfl, down, value]
    | false =>
      rw [if_neg Bool.false_ne_true, if_neg Bool.false_ne_true, zpow_natCast]
      rcases d.shiftUp?_eq room with ⟨shifted, read, value⟩ | ⟨none, large⟩
      · refine .inl ⟨shifted, read, by exact_mod_cast room, ?_, ?_⟩
        · rw [← value]
          exact shifted.abs_value_lt
        · rw [← value]
          exact (Fits.roundAway_eq ⟨shifted, rfl⟩).symm
      · exact .inr ⟨none, fun _ => large⟩
  · right
    refine ⟨?_, fun within => absurd (by exact_mod_cast within) room⟩
    cases e.sign.isNegative with
    | true => exact if_pos (not_le.mp room)
    | false =>
      have scale := d.scale_le
      rw [if_neg Bool.false_ne_true, Decimal.shiftUp?, if_neg (by omega), if_neg room]

namespace Numeral.Literal

variable {l : Literal} {d e : Decimal}

/-- Without an exponent nothing moves, and with one it is as the exponent says. -/
theorem shifted_eq (l : Literal) (d : Decimal) :
    (∃ shifted, (l.exponent.elim (some d) fun e => e.shift? d) = some shifted ∧ |l.power| ≤ 28 ∧
        |d.value * 10 ^ l.power| < 2 ^ 96 ∧
        shifted.value = roundAway 28 (d.value * 10 ^ l.power)) ∨
      ((l.exponent.elim (some d) fun e => e.shift? d) = none ∧
        (|l.power| ≤ 28 → 2 ^ 96 ≤ |d.value * 10 ^ l.power|)) := by
  rw [power]
  cases l.exponent with
  | some e => exact e.shift?_eq d
  | none =>
    rw [Option.elim, Option.elim, zpow_zero, mul_one]
    exact .inl ⟨d, rfl, by decide, d.abs_value_lt, (Fits.roundAway_eq ⟨d, rfl⟩).symm⟩

theorem Exact.readAs (exact : l.Exact) : ∃ d, l.ReadAs d := by
  obtain ⟨room, mantissa, d, same⟩ := exact
  rcases Decimal.signed?_keeps (Decimal.reads_row l.mantissa) l.mantissa.sign.isNegative with
    ⟨first, _, keeps⟩ | ⟨_, large⟩
  · have whole := (keeps.exact_iff (Decimal.abs_ofUnits ..)).mpr mantissa
    have number : first.value * 10 ^ l.power = d.value := by
      rw [whole, same]
      rfl
    refine ⟨d, room, first, keeps, ?_, ?_⟩
    · rw [number]
      exact d.abs_value_lt
    · rw [number]
      exact (Fits.roundAway_eq ⟨d, rfl⟩).symm
  · exact absurd mantissa.abs_roundAway_lt (not_lt.mpr large)

theorem unread (untaken : ∀ d, ¬ l.ReadAs d) : l.Unread := by
  refine ⟨?_, untaken⟩
  intro exact
  obtain ⟨d, taken⟩ := exact.readAs
  exact untaken d taken

/-- A number is read if and only if there is something to take for it. -/
theorem ofText?_readAs (l : Literal) :
    (∃ d, Decimal.ofText? l.text = some d ∧ l.ReadAs d) ∨
      (Decimal.ofText? l.text = none ∧ l.Unread) := by
  rw [Decimal.ofText?_text]
  rcases Decimal.signed?_keeps (Decimal.reads_row l.mantissa) l.mantissa.sign.isNegative with
    ⟨first, plain, keeps⟩ | ⟨none, large⟩
  · rw [plain, Option.bind_some]
    rcases l.shifted_eq first with ⟨d, read, room, small, value⟩ | ⟨none, large⟩
    · exact .inl ⟨d, read, room, first, keeps, small, value⟩
    · right
      refine ⟨none, unread ?_⟩
      rintro d ⟨room, other, kept, small, _⟩
      rw [kept.unique keeps] at small
      exact absurd small (not_lt.mpr (large room))
  · right
    rw [none]
    refine ⟨rfl, unread ?_⟩
    rintro d ⟨_, first, keeps, _⟩
    exact absurd (Decimal.abs_roundAway_lt keeps.value) (not_lt.mpr large)

/-- What is taken for a number is determined but for its scale and the sign of a zero. -/
theorem ReadAs.iff_value (read : l.ReadAs d) : l.ReadAs e ↔ e.value = d.value := by
  obtain ⟨room, first, keeps, small, value⟩ := read
  constructor
  · rintro ⟨_, other, kept, _, rounded⟩
    rw [rounded, value, kept.unique keeps]
  · intro same
    exact ⟨room, first, keeps, small, same.trans value⟩

theorem ReadAs.value_eq_iff (read : l.ReadAs d) : d.value = l.value ↔ l.Exact := by
  obtain ⟨room, first, keeps, small, value⟩ := read
  have whole := keeps.exact_iff (Decimal.abs_ofUnits ..)
  constructor
  · intro same
    have number : Fits l.value := ⟨d, same⟩
    refine ⟨room, ?_, number⟩
    rcases le_total 0 l.power with up | down
    · obtain ⟨k, power⟩ := Int.eq_ofNat_of_zero_le up
      have count : |first.value * 10 ^ k| * 10 ^ first.scale = (first.magnitude * 10 ^ k : ℕ) := by
        rw [abs_mul, abs_of_nonneg (by positivity : (0 : ℚ) ≤ 10 ^ k), mul_right_comm,
          Decimal.abs_value]
        push_cast
        rfl
      rw [value, power, zpow_natCast,
        Decimal.roundAway_eq_self (Decimal.natural_of_le count first.scale_le), Literal.value,
        power, zpow_natCast] at same
      exact ⟨first, mul_right_cancel₀ (by positivity) same⟩
    · obtain ⟨k, power⟩ := Int.exists_eq_neg_ofNat down
      rw [Literal.value, power, zpow_neg, zpow_natCast, ← div_eq_mul_inv] at number
      exact number.of_div (Decimal.abs_roundAway_lt keeps.value)
  · rintro ⟨_, mantissa, number⟩
    rw [value, whole.mpr mantissa]
    exact number.roundAway_eq

end Numeral.Literal

end ItemSchema
